import ThemeMarkup.Proofs.FlatPass

namespace ThemeMarkup

namespace Found

variable {α : Type} {read : Text → Option (α × Text)} {Makes : α → Text → Prop} {text out : Text}

/-- What a text becomes when each value that is read in it, from the left, gives its place to a text
that it makes. -/
inductive Edits (read : Text → Option (α × Text)) (Makes : α → Text → Prop) :
    Text → Text → Prop where
  | nil : Edits read Makes [] []
  | keep {gap text out : Text} (silent : Silent read gap.length (gap ++ text))
      (more : Edits read Makes text out) : Edits read Makes (gap ++ text) (gap ++ out)
  | find {source rest new out : Text} {value : α} (taken : source ≠ [])
      (reads : read (source ++ rest) = some (value, rest)) (makes : Makes value new)
      (more : Edits read Makes rest out) : Edits read Makes (source ++ rest) (new ++ out)

theorem Edits.whole {new : Text} {value : α} (taken : text ≠ [])
    (reads : read text = some (value, [])) (makes : Makes value new) :
    Edits read Makes text new := by
  have hread : read (text ++ []) = some (value, []) := by rwa [List.append_nil]
  have hfind := Edits.find taken hread makes .nil
  rwa [List.append_nil, List.append_nil] at hfind

/-- The finds behind edits: replacing their spans gives what the text becomes. -/
theorem Edits.exists_scans (h : Edits read Makes text out) (full : Text) (offset : Nat) :
    ∃ finds contents, Scans read offset text finds ∧
      List.Forall₂ (fun found new => Makes found.value new) finds contents ∧
      (∀ found ∈ finds, offset ≤ found.offset ∧ found.source ≠ []) ∧
      Text.splice offset text ((finds.map (·.span full)).zip contents) = out := by
  induction h generalizing offset with
  | nil => exact ⟨[], [], .done fun i hi => absurd hi (Nat.not_lt_zero i), .nil, nofun, rfl⟩
  | @keep gap text out hs _ ih =>
    obtain ⟨finds, contents, hscans, hmake, hfinds, hsplice⟩ := ih (offset + gap.length)
    refine ⟨finds, contents, hscans.append hs, hmake, ?_, ?_⟩
    · intro found hf
      obtain ⟨hle, hne⟩ := hfinds found hf
      exact ⟨Nat.le_trans (Nat.le_add_right ..) hle, hne⟩
    · rw [Text.splice_append]
      · rw [← hsplice, Int.natCast_add]
      · intro edit he
        have hmem := (List.of_mem_zip (List.mem_of_mem_head? he)).1
        obtain ⟨found, hf, hspan⟩ := List.mem_map.1 hmem
        obtain ⟨hle, hne⟩ := hfinds found hf
        have hlast := last_span hne full
        rw [← hspan, hlast, first_span]
        omega
  | @find source rest new out value hn hr hm _ ih =>
    obtain ⟨finds, contents, hscans, hmake, hfinds, hsplice⟩ := ih (offset + source.length)
    refine ⟨⟨offset, source, value⟩ :: finds, new :: contents, hscans.here hn hr, hmake.cons hm,
      ?_, ?_⟩
    · intro found hf
      cases List.mem_cons.1 hf with
      | inl he =>
        subst he
        exact ⟨Nat.le_refl _, hn⟩
      | inr hf =>
        obtain ⟨hle, hne⟩ := hfinds found hf
        exact ⟨Nat.le_trans (Nat.le_add_right ..) hle, hne⟩
    · have hlast :
          ((⟨offset, source, value⟩ : Found α).span full).last + 1 = offset + source.length :=
        last_span hn full
      rw [List.map_cons, List.zip_cons_cons, Text.splice_here (first_span _ full) hlast, ← hsplice,
        Int.natCast_add]

theorem Scans.exists_edits {P Q : Text → Prop} {offset : Nat} {finds : List (Found α)}
    (h : Scans read offset text finds) (hin : P text)
    (hdone : ∀ {text}, P text → Silent read text.length text → Q text)
    (hfind : ∀ {gap source rest value}, (∃ found ∈ finds, found.value = value) →
      P (gap ++ (source ++ rest)) → Silent read gap.length (gap ++ (source ++ rest)) →
      read (source ++ rest) = some (value, rest) →
      ∃ new, Makes value new ∧ P rest ∧ ∀ out, Q out → Q (gap ++ (new ++ out))) :
    ∃ out, Edits read Makes text out ∧ Q out := by
  induction h with
  | @done offset text hs =>
    have hkeep : Edits read Makes (text ++ []) (text ++ []) :=
      .keep ((List.append_nil text).symm ▸ hs) .nil
    rw [List.append_nil] at hkeep
    exact ⟨text, hkeep, hdone hin hs⟩
  | @find offset source rest value finds gap hs hn hr _ ih =>
    rw [List.append_assoc] at hin hs ⊢
    obtain ⟨new, hmake, hrest, hout⟩ := hfind ⟨_, List.mem_cons_self, rfl⟩ hin hs hr
    obtain ⟨out, hedits, ho⟩ := ih hrest fun ⟨found, hf, hv⟩ =>
      hfind ⟨found, List.mem_cons_of_mem _ hf, hv⟩
    exact ⟨gap ++ (new ++ out), .keep hs (.find hn hr hmake hedits), hout out ho⟩

theorem Scans.exists_edits_of_makes {offset : Nat} {finds : List (Found α)}
    (h : Scans read offset text finds)
    (hm : ∀ {text value rest}, read text = some (value, rest) → ∃ new, Makes value new) :
    ∃ out, Edits read Makes text out := by
  obtain ⟨out, hout, -⟩ := h.exists_edits (P := fun _ => True) (Q := fun _ => True) trivial
    (fun _ _ => trivial) fun {_ _ _ value} _ _ _ hread => by
      obtain ⟨new, hnew⟩ := hm hread
      exact ⟨new, hnew, trivial, fun _ _ => trivial⟩
  exact ⟨out, hout⟩

/-- Whether a stretch of text before `rest` is kept or read whole, and what it becomes. -/
def Step (read : Text → Option (α × Text)) (Makes : α → Text → Prop) (old new rest : Text) : Prop :=
  (old = new ∧ Silent read old.length (old ++ rest)) ∨
    (old ≠ [] ∧ ∃ value, read (old ++ rest) = some (value, rest) ∧ Makes value new)

theorem Step.edits {old new rest : Text} (h : Step read Makes old new rest)
    (more : Edits read Makes rest out) : Edits read Makes (old ++ rest) (new ++ out) := by
  rcases h with ⟨rfl, hs⟩ | ⟨hn, value, hr, hm⟩
  · exact .keep hs more
  · exact .find hn hr hm more

end Found

namespace Engine

open Found (Edits)

variable {engine : Engine} {pass : Pass} {α : Type} {read : Text → Option (α × Text)}
  {Makes : α → Text → Prop} {text out : Text}

/-- The spans that a flat pass replaces, each with what it becomes. -/
def edits (engine : Engine) (pass : Pass) (text : Text) : Except Error (List (Span × Text)) := do
  let nodes ← engine.nodes pass text
  let contents ← nodes.mapM (Node.compileContent engine.compiler)
  return (nodes.map (·.span)).zip contents

theorem splicePass_eq_map (engine : Engine) (pass : Pass) (text : Text) :
    engine.splicePass pass text = (engine.edits pass text).map (Text.splice 0 text) := by
  rw [splicePass, edits]
  cases engine.nodes pass text with
  | error e => rfl
  | ok nodes =>
    simp only [bind, Except.bind]
    cases nodes.mapM (Node.compileContent engine.compiler) <;> rfl

theorem runPass_of_edits (hd : engine.delimiters.code.left ≠ []) (hp : pass ≠ .node)
    {edits : List (Span × Text)} (h : engine.edits pass text = .ok edits) :
    engine.runPass pass text = .ok (Text.splice 0 text edits) := by
  rw [runPass_eq_splicePass hd hp, splicePass_eq_map, h]
  rfl

/-- Whether a pass has a node for each thing that is read in a text, which compiles to what that
makes. -/
def Replaces (engine : Engine) (pass : Pass) (read : Text → Option (α × Text))
    (Makes : α → Text → Prop) : Prop :=
  ∀ text, ∃ leaf : Found α → Except Error Node,
    engine.nodes pass text = (Found.scan read text).mapM leaf ∧
      ∀ found new, Makes found.value new → ∃ node, leaf found = .ok node ∧
        node.span = found.span text ∧ node.compileContent engine.compiler = .ok new

theorem Replaces.edits_eq (h : engine.Replaces pass read Makes) {contents : List Text}
    (hm : List.Forall₂ (fun found new => Makes found.value new) (Found.scan read text) contents) :
    engine.edits pass text = .ok (((Found.scan read text).map (·.span text)).zip contents) := by
  obtain ⟨leaf, hnodes, hleaf⟩ := h text
  generalize Found.scan read text = finds at hm hnodes
  have hall : ∃ nodes, finds.mapM leaf = .ok nodes ∧
      nodes.mapM (Node.compileContent engine.compiler) = .ok contents ∧
      nodes.map (·.span) = finds.map (·.span text) := by
    clear hnodes
    induction hm with
    | nil => exact ⟨[], rfl, rfl, rfl⟩
    | @cons found new finds contents hmake _ ih =>
      obtain ⟨node, hnode, hspan, hcompile⟩ := hleaf found new hmake
      obtain ⟨nodes, hleaves, hcontents, hspans⟩ := ih
      refine ⟨node :: nodes, ?_, ?_, ?_⟩
      · rw [List.mapM_cons, hnode, hleaves]
        rfl
      · rw [List.mapM_cons, hcompile, hcontents]
        rfl
      · rw [List.map_cons, List.map_cons, hspan, hspans]
  obtain ⟨nodes, hleaves, hcontents, hspans⟩ := hall
  rw [edits, hnodes, hleaves]
  simp only [bind, Except.bind, hcontents, hspans]
  rfl

theorem Replaces.runPass_eq (h : engine.Replaces pass read Makes)
    (hd : engine.delimiters.code.left ≠ []) (hp : pass ≠ .node) (he : Edits read Makes text out) :
    engine.runPass pass text = .ok out := by
  obtain ⟨finds, contents, hscans, hmake, -, hsplice⟩ := he.exists_scans text 0
  have hscan : Found.scan read text = finds := hscans.scanFrom_eq
  subst hscan
  rw [runPass_of_edits hd hp (h.edits_eq hmake)]
  exact congrArg Except.ok hsplice

end Engine

end ThemeMarkup
