import ThemeMarkup.Proofs.Template.Unmarked

namespace ThemeMarkup.Marker

/-- A marker under a serial number and the text after it. -/
structure Entry where
  kind : Marker
  digits : Text
  content : Text
  after : Text := []
  deriving DecidableEq, Repr

namespace Entry

def marker (entry : Entry) : Text :=
  numbered entry.kind entry.digits entry.content

/-- A marker that holds something, with no two hash signs in a row in the text after it. -/
structure IsProper (entry : Entry) : Prop where
  digits : IsSerial entry.digits
  content : entry.content ≠ []
  after : Text.Unmarked entry.after

instance (entry : Entry) : Decidable entry.IsProper :=
  decidable_of_iff (IsSerial entry.digits ∧ entry.content ≠ [] ∧ Text.Unmarked entry.after)
    ⟨fun h => ⟨h.1, h.2.1, h.2.2⟩, fun h => ⟨h.1, h.2, h.3⟩⟩

theorem marker_eq_encode [Serials] (kind : Marker) (content after : Text) :
    marker ⟨kind, serial kind.word content, content, after⟩ = encode kind content :=
  rfl

def write (entries : List Entry) : Text :=
  entries.flatMap fun entry => entry.marker ++ entry.after

/-- Where the markers of entries stand in a text, the first one at an offset. -/
def placed : Nat → List Entry → List (Nat × Entry)
  | _, [] => []
  | offset, entry :: entries =>
    (offset, entry) :: placed (offset + entry.marker.length + entry.after.length) entries

/-- The node of a marker at an offset of a text. -/
structure IsNode (text : Text) (offset : Nat) (entry : Entry) (node : Node) : Prop where
  source : node.source = entry.marker
  span : node.span = Span.ofRange text offset entry.marker.length
  stands : entry.marker <+: text.drop offset
  decodes : decode node.content = .ok entry.content

variable {kind : Marker} {entry : Entry} {entries : List Entry} {text : Text}

theorem write_cons (entry : Entry) (entries : List Entry) :
    write (entry :: entries) = entry.marker ++ (entry.after ++ write entries) := by
  rw [write, List.flatMap_cons, List.append_assoc]
  rfl

theorem marker_ne_nil (entry : Entry) : entry.marker ≠ [] := by
  simp [marker, numbered, opening]

theorem follows_write (entries : List Entry) : Text.Follows (write entries) := by
  cases entries with
  | nil => exact Text.follows_nil
  | cons entry entries =>
    rw [write_cons]
    exact follows_numbered ..

def found (offset : Nat) (entry : Entry) : Found Text :=
  ⟨offset, entry.marker, payloadOf entry.content⟩

theorem scans_write (h : ∀ entry ∈ entries, entry.IsProper) (offset : Nat) :
    Found.Scans (read? kind) offset (write entries)
      (((placed offset entries).filter (·.2.kind = kind)).map fun place =>
        found place.1 place.2) := by
  induction entries generalizing offset with
  | nil => exact .done fun i hi => absurd hi (Nat.not_lt_zero i)
  | cons entry entries ih =>
    obtain ⟨hdigits, hcontent, hafter⟩ := h entry List.mem_cons_self
    have hrest := ih (fun e he => h e (List.mem_cons_of_mem _ he))
      (offset + entry.marker.length + entry.after.length)
    have hmore := hrest.append (silent_of_follows hafter (follows_write entries))
    rw [placed, write_cons]
    by_cases hk : entry.kind = kind
    · rw [List.filter_cons_of_pos (by simpa using hk)]
      refine .here entry.marker_ne_nil ?_ hmore
      rw [← hk]
      exact read?_numbered _ hdigits hcontent _
    · rw [List.filter_cons_of_neg (by simpa using hk)]
      have hunled := hafter.unled_append (follows_write entries)
      exact hmore.append (silent_numbered (Ne.symm hk) hdigits _ hunled)

end Entry

open Entry

/-- The markers of a kind among other text and other markers are found, each at its place, and what
they hold is read from their nodes. -/
theorem nodes_interleave {before : Text} {entries : List Entry} (kind : Marker)
    (hb : Text.Unmarked before) (he : ∀ entry ∈ entries, entry.IsProper) :
    List.Forall₂ (fun place node => IsNode (before ++ write entries) place.1 place.2 node)
      ((placed before.length entries).filter (·.2.kind = kind))
      (nodes kind (before ++ write entries)) := by
  let places := (placed before.length entries).filter (·.2.kind = kind)
  have hwritten : Found.Scans (read? kind) (0 + before.length) (write entries)
      (places.map fun place => found place.1 place.2) := by
    rw [Nat.zero_add]
    exact scans_write he before.length
  have hscans : Found.Scans (read? kind) 0 (before ++ write entries)
      (places.map fun place => found place.1 place.2) :=
    hwritten.append (silent_of_follows hb (follows_write entries))
  rw [nodes, Found.scan, hscans.scanFrom_eq, List.map_map]
  refine List.forall₂_map_right_iff.2 (List.forall₂_same.2 fun place hp => ⟨rfl, rfl, ?_, ?_⟩)
  · obtain ⟨-, rest, hdrop, -⟩ := (hscans.located _ rfl).reads _ (List.mem_map_of_mem hp)
    exact ⟨rest, hdrop.symm⟩
  · exact decode_payloadOf _

/-- Markers of both kinds, side by side and between underscores and hash signs. -/
def mixed : List Entry :=
  [{ kind := .code, digits := "1234567", content := "$a", after := "#_" },
    { kind := .literal, digits := "42", content := "é##" },
    { kind := .code, digits := "1234567", content := "\x7b%", after := "_#" }]

theorem nodes_interleave_mixed :
    Text.Unmarked "_" ∧ (∀ entry ∈ mixed, entry.IsProper) ∧
      List.Forall₂ (fun place node => IsNode ("_" ++ write mixed) place.1 place.2 node)
        ((placed 1 mixed).filter (·.2.kind = .code)) (nodes .code ("_" ++ write mixed)) := by
  have hbefore : Text.Unmarked "_" := by decide
  have hproper : ∀ entry ∈ mixed, entry.IsProper := by decide
  exact ⟨hbefore, hproper, nodes_interleave .code hbefore hproper⟩

end ThemeMarkup.Marker
