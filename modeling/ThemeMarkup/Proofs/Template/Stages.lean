import ThemeMarkup.Proofs.StandardPass
import ThemeMarkup.Proofs.Template.Expression

namespace ThemeMarkup

namespace Writer

variable [Marker.Serials]

def hidden : Writer :=
  { source with literal := fun interior => Marker.encode .literal (Text.strip interior) }

/-- Templates with their literals and the output of their code tags protected. -/
def guarded : Writer :=
  { hidden with code := fun sigil payload => Marker.encode .code (sigil.meaning payload) }

def compiled (suffix : Text) : Writer :=
  { target suffix with code := guarded.code, literal := guarded.literal }

def shown (suffix : Text) : Writer :=
  { target suffix with literal := guarded.literal }

end Writer

namespace Template

def Token.write (w : Writer) : Token → Text
  | text content => content
  | code sigil payload => w.code sigil payload
  | literal interior => w.literal interior
  | single tag => w.single tag
  | opening tag => w.opening tag
  | closing tag => w.closing tag

theorem write_eq_flatMap (w : Writer) (t : Template) :
    t.write w = t.tokens.flatMap (Token.write w) := by
  induction t with
  | nil => rfl
  | text content next ih => rw [write, tokens, List.flatMap_cons, ih]; rfl
  | code sigil payload next ih => rw [write, tokens, List.flatMap_cons, ih]; rfl
  | literal interior next ih => rw [write, tokens, List.flatMap_cons, ih]; rfl
  | single tag next ih => rw [write, tokens, List.flatMap_cons, ih]; rfl
  | block tag body next ihb ih =>
    rw [write, tokens, List.flatMap_cons, List.flatMap_append, List.flatMap_cons, ihb, ih]
    simp only [Token.write, List.append_assoc]

open Text (Unmarked Follows Unled)

def Token.Clear : Token → Text → Prop
  | .text _, rest => Follows rest
  | _, rest => Unled rest

theorem Token.clear_of_follows {token : Token} {rest : Text} (h : Follows rest) :
    token.Clear rest := by
  cases token with
  | text => exact h
  | _ => exact h.unled

/-- A writer of which no token but plain text can go on with a marker that plain text begins. -/
def Apart (w : Writer) : Prop :=
  ∀ (token : Token) (rest : Text), (∀ content, token ≠ .text content) →
    Follows (token.write w ++ rest)

theorem clear_of_isChain {w : Writer} {token : Token} {tokens : List Token} (hw : Apart w)
    (hp : ∀ token ∈ tokens, token.IsProper) (hc : (token :: tokens).IsChain Token.MayPrecede) :
    token.Clear (tokens.flatMap (Token.write w)) := by
  induction tokens generalizing token with
  | nil => exact Token.clear_of_follows Text.follows_nil
  | cons next tokens ih =>
    obtain ⟨hnext, hp⟩ := List.forall_mem_cons.1 hp
    obtain ⟨hmay, hc⟩ := List.isChain_cons_cons.1 hc
    have hclear := ih hp hc
    rw [List.flatMap_cons]
    cases next with
    | text content =>
      have hunled : Unled (content ++ tokens.flatMap (Token.write w)) :=
        Unmarked.unled_append hnext.2 hclear
      cases token with
      | text => contradiction
      | _ => exact hunled
    | _ => exact Token.clear_of_follows (hw _ _ nofun)

section Steps

variable {u v : Writer} {α : Type} {read : Text → Option (α × Text)} {Makes : α → Text → Prop}

theorem edits_write (hu : Apart u)
    (hstep : ∀ (token : Token) (rest : Text), token.IsProper → token.Clear rest →
      Found.Step read Makes (token.write u) (token.write v) rest)
    {t : Template} (h : t.IsProper) : Found.Edits read Makes (t.write u) (t.write v) := by
  rw [write_eq_flatMap, write_eq_flatMap]
  obtain ⟨hp, hc⟩ := h
  generalize t.tokens = tokens at hp hc
  induction tokens with
  | nil => exact .nil
  | cons token tokens ih =>
    have hclear := clear_of_isChain hu (List.forall_mem_cons.1 hp).2 hc
    rw [List.flatMap_cons, List.flatMap_cons]
    exact (hstep token _ (List.forall_mem_cons.1 hp).1 hclear).edits
      (ih (List.forall_mem_cons.1 hp).2 hc.tail)

end Steps

theorem apart_source : Apart .source := by
  intro token rest hn
  cases token with
  | text content => exact absurd rfl (hn content)
  | code => exact Text.follows_brace _
  | literal => exact Text.follows_brace _
  | single => exact Text.follows_brace _
  | opening => exact Text.follows_brace _
  | closing => exact Text.follows_brace _

section

variable [Marker.Serials]

theorem apart_hidden : Apart .hidden := by
  intro token rest hn
  cases token with
  | literal => exact Marker.follows_encode ..
  | _ => exact apart_source _ rest hn

end

theorem silent_brace {α : Type} {read : Text → Option (α × Text)} {lead gap rest : Text}
    (hr : Found.Begins ('\x7b' :: lead) read) (hg : '\x7b' ∉ gap)
    (hn : read ('\x7b' :: (gap ++ rest)) = none) :
    Found.Silent read ('\x7b' :: gap).length ('\x7b' :: gap ++ rest) :=
  .cons hn (hr.silent_of_not_mem hg rest)

theorem exists_code (sigil : Sigil) {payload : Text} (h : '\x7b' ∉ payload) :
    ∃ gap, Writer.source.code sigil payload = '\x7b' :: '\x7b' :: ' ' :: gap ∧ '\x7b' ∉ gap := by
  refine ⟨sigil.name ++ payload ++ (" \x7d\x7d" : Text), rfl, ?_⟩
  have hname : '\x7b' ∉ sigil.name := by
    cases sigil <;> decide
  simp [hname, h]

variable {kind : TagKind} {name argument : Text}

theorem silent_literal_written (hn : name ∈ Standard.names) (ha : Tag.IsWritten argument)
    (kind : TagKind) (rest : Text) :
    Found.Silent (Literal.read? .usual) (Tag.written kind name argument).length
      (Tag.written kind name argument ++ rest) := by
  obtain ⟨text, he, ht⟩ := Tag.not_mem_written hn ha kind
  obtain ⟨c, after, hc, hb, hlower⟩ := Tag.exists_written hn kind argument
  have hnone := Literal.read?_eq_none hb hlower (after ++ rest)
  have hsame : '\x7b' :: ('%' :: text ++ rest) = ("\x7b% " : Text) ++ c :: (after ++ rest) := by
    have h := congrArg (· ++ rest) (he.symm.trans hc)
    simpa only [List.cons_append, List.append_assoc] using h
  rw [he]
  apply silent_brace Literal.begins_read?
  · simpa using ht
  · rw [hsame]
    exact hnone

theorem silent_code_written (hn : name ∈ Standard.names) (ha : Tag.IsWritten argument)
    (kind : TagKind) (names : List Text) (rest : Text) :
    Found.Silent (Code.read? ({} : DelimiterSet).code names) (Tag.written kind name argument).length
      (Tag.written kind name argument ++ rest) := by
  obtain ⟨text, he, ht⟩ := Tag.not_mem_written hn ha kind
  have hbegins := Code.begins_read? ({} : DelimiterSet).code names
  rw [he]
  apply silent_brace hbegins
  · simpa using ht
  · exact hbegins _ (Text.after?_id_eq_none_iff.1 rfl)

theorem meaning_append_space (sigil : Sigil) (payload : Text) :
    sigil.meaning (payload ++ [' ']) = sigil.meaning payload := by
  have h : Text.strip (payload ++ [' ']) = Text.strip payload :=
    Text.strip_append payload (List.forall_mem_singleton.2 (by decide))
  cases sigil <;> simp only [Sigil.meaning, h]

section

variable [Marker.Serials]

/-- The literal pass protects what literals hold. -/
theorem step_hide {token : Token} (h : token.IsProper) (rest : Text) :
    Found.Step (Literal.read? .usual) Engine.HidesLiteral (token.write .source)
      (token.write .hidden) rest := by
  cases token with
  | text content => exact .inl ⟨rfl, Literal.begins_read?.silent_of_not_mem h.1 rest⟩
  | code sigil payload =>
    obtain ⟨gap, hgap, hbrace⟩ := exists_code sigil h.1
    refine .inl ⟨rfl, ?_⟩
    change Found.Silent _ (Writer.source.code sigil payload).length
      (Writer.source.code sigil payload ++ rest)
    rw [hgap]
    apply Found.Silent.cons
    · exact Literal.begins_read? _ (Text.after?_id_eq_none_iff.1 rfl)
    · apply silent_brace Literal.begins_read?
      · simpa using hbrace
      · exact Literal.begins_read? _ (Text.after?_id_eq_none_iff.1 rfl)
  | literal interior =>
    have hn : interior ≠ [] := by
      rintro rfl
      obtain ⟨c, hc, -⟩ := h.1
      exact List.not_mem_nil hc
    refine .inr ⟨by simp [Token.write, Writer.source], interior, ?_, rfl⟩
    have hread := Literal.read?_written hn h.2 rest
    simpa only [Token.write, Writer.source, List.append_assoc] using hread
  | single tag =>
    exact .inl ⟨rfl, silent_literal_written tag.name_mem tag.areValues.areSafe.isWritten .head rest⟩
  | opening tag =>
    exact .inl ⟨rfl, silent_literal_written tag.name_mem tag.areValues.areSafe.isWritten .head rest⟩
  | closing tag =>
    exact .inl ⟨rfl, silent_literal_written tag.name_mem Tag.isWritten_space .tail rest⟩

/-- The code pass protects what code tags output. -/
theorem step_guard {token : Token} (h : token.IsProper) (rest : Text) :
    Found.Step (Code.read? ({} : DelimiterSet).code Standard.codeNames) Engine.ProtectsCode
      (token.write .hidden) (token.write .guarded) rest := by
  have hbegins :
      Found.Begins ['\x7b', '\x7b'] (Code.read? ({} : DelimiterSet).code Standard.codeNames) :=
    Code.begins_read? ({} : DelimiterSet).code _
  cases token with
  | text content => exact .inl ⟨rfl, hbegins.silent_of_not_mem h.1 rest⟩
  | code sigil payload =>
    refine .inr ⟨by simp [Token.write, Writer.hidden, Writer.source],
      (sigil.name, payload ++ [' ']), sigil.read?_written h.2.1 rest, sigil, rfl, ?_⟩
    rw [meaning_append_space]
    rfl
  | literal interior =>
    have hmarker := Marker.brace_not_mem_encode .literal (Text.strip interior)
    exact .inl ⟨rfl, hbegins.silent_of_not_mem hmarker rest⟩
  | single tag =>
    exact .inl ⟨rfl, silent_code_written tag.name_mem tag.areValues.areSafe.isWritten .head _ rest⟩
  | opening tag =>
    exact .inl ⟨rfl, silent_code_written tag.name_mem tag.areValues.areSafe.isWritten .head _ rest⟩
  | closing tag =>
    exact .inl ⟨rfl, silent_code_written tag.name_mem Tag.isWritten_space .tail _ rest⟩

end

open Marker (IsSealed isSealed_statement isSealed_output isSealed_comment)
open Expression (toTarget quote)

theorem hash_not_mem_toTarget (value : Value) : '#' ∉ toTarget value.text := by
  intro h
  cases Expression.mem_toTarget h with
  | inl hm => exact value.not_mem_hash hm
  | inr he => exact absurd he (by decide)

theorem isSealed_of_not_mem {inner : Text} (h : '#' ∉ inner) : IsSealed (Target.statement inner) :=
  isSealed_statement (Text.unmarked_of_not_mem h)

theorem isSealed_meaning (sigil : Sigil) {payload : Text} (h : Unmarked payload) :
    IsSealed (sigil.meaning payload) := by
  have hstrip := h.of_infix (Text.strip_infix payload)
  cases sigil with
  | value => exact isSealed_output (Expression.unmarked_toTarget hstrip)
  | echo => exact isSealed_output (Expression.unmarked_toTarget hstrip)
  | note => exact isSealed_comment hstrip
  | statement => exact isSealed_statement hstrip

theorem hash_not_mem_file {suffix : Text} (hs : '#' ∉ suffix) (file : Value) :
    '#' ∉ quote (Standard.withSuffix (Text.strip file.text) suffix) := by
  have hname : '#' ∉ Text.strip file.text := by
    intro hm
    exact file.not_mem_hash ((Text.strip_infix _).subset hm)
  have hfile : '#' ∉ Standard.withSuffix (Text.strip file.text) suffix := by
    rw [Standard.withSuffix]
    split
    · exact hname
    · exact List.not_mem_append hname hs
  intro hm
  rcases Expression.mem_quote hm with hm | he | he | he
  · exact hfile hm
  all_goals exact absurd he (by decide)

theorem hash_not_mem_elim {otherwise : Text} (ho : '#' ∉ otherwise) (value? : Option Value) :
    '#' ∉ value?.elim otherwise fun value => toTarget value.text := by
  cases value? with
  | none => exact ho
  | some value => exact hash_not_mem_toTarget value

theorem isSealed_single {suffix : Text} (hs : '#' ∉ suffix) (tag : Single) :
    IsSealed (tag.meaning suffix) := by
  cases tag with
  | elseif condition =>
    apply isSealed_of_not_mem
    exact List.not_mem_append (by decide) (hash_not_mem_toTarget condition)
  | otherwise => exact isSealed_of_not_mem (by decide)
  | inclusion file suffix? =>
    apply isSealed_of_not_mem
    apply List.not_mem_append (by decide)
    apply hash_not_mem_file
    cases suffix? with
    | none => exact hs
    | some value => exact fun hm => value.not_mem_hash hm
  | assignment name value =>
    apply isSealed_of_not_mem
    have hname : '#' ∉ ("set " : Text) ++ toTarget name.text :=
      List.not_mem_append (by decide) (hash_not_mem_toTarget name)
    have hvalue := hash_not_mem_elim (by decide : '#' ∉ ("none" : Text)) value
    exact List.not_mem_append (List.not_mem_append hname (by decide)) hvalue
  | leave => exact isSealed_of_not_mem (by decide)
  | resume => exact isSealed_of_not_mem (by decide)

theorem hash_not_mem_range (iterable : Value) (key value : Option Value) :
    '#' ∉ Block.range iterable key value := by
  have hvalue := hash_not_mem_elim (by decide : '#' ∉ ("value" : Text)) value
  have hrest (lead : Text) (hl : '#' ∉ lead) : '#' ∉ lead ++
      (value.elim ("value" : Text) fun value => toTarget value.text) ++ (" in " : Text) ++
        toTarget iterable.text :=
    List.not_mem_append (List.not_mem_append (List.not_mem_append hl hvalue) (by decide))
      (hash_not_mem_toTarget iterable)
  cases key with
  | none => exact hrest "for " (by decide)
  | some key =>
    have hkey : '#' ∉ ("for " : Text) ++ toTarget key.text ++ (", " : Text) :=
      List.not_mem_append (List.not_mem_append (by decide) (hash_not_mem_toTarget key)) (by decide)
    exact List.not_mem_append (hrest _ hkey) (by decide)

theorem isSealed_opening (tag : Block) : IsSealed tag.opening := by
  cases tag with
  | condition value =>
    apply isSealed_of_not_mem
    exact List.not_mem_append (by decide) (hash_not_mem_toTarget value)
  | loop iterable key value index =>
    have hrange := isSealed_of_not_mem (hash_not_mem_range iterable key value)
    cases index with
    | none => exact hrange
    | some index =>
      apply hrange.append
      apply isSealed_of_not_mem
      exact List.not_mem_append (List.not_mem_append (by decide) (hash_not_mem_toTarget index))
        (by decide)

theorem isSealed_closing (tag : Block) : IsSealed tag.closing := by
  cases tag with
  | condition => exact isSealed_of_not_mem (by decide)
  | loop => exact isSealed_of_not_mem (by decide)

theorem follows_opening (tag : Block) (rest : Text) : Follows (tag.opening ++ rest) := by
  cases tag with
  | condition => exact Text.follows_brace _
  | loop iterable key value index =>
    cases index with
    | none => exact Text.follows_brace _
    | some index => exact Text.follows_brace _

theorem follows_closing (tag : Block) (rest : Text) : Follows (tag.closing ++ rest) := by
  cases tag with
  | condition => exact Text.follows_brace _
  | loop => exact Text.follows_brace _

theorem follows_single (suffix : Text) (tag : Single) (rest : Text) :
    Follows (tag.meaning suffix ++ rest) := by
  cases tag <;> exact Text.follows_brace _

theorem follows_meaning (sigil : Sigil) (payload rest : Text) :
    Follows (sigil.meaning payload ++ rest) := by
  cases sigil <;> exact Text.follows_brace _

theorem step_kept {kind : Marker} {Makes : Text → Text → Prop} {text rest : Text}
    (h : IsSealed text) :
    Found.Step (Marker.read? kind) Makes text text rest :=
  .inl ⟨rfl, Marker.silent_of_isSealed h rest⟩

section

variable [Marker.Serials]

theorem apart_shown (suffix : Text) : Apart (.shown suffix) := by
  intro token rest hn
  cases token with
  | text content => exact absurd rfl (hn content)
  | code sigil payload => exact follows_meaning sigil payload rest
  | literal => exact Marker.follows_encode ..
  | single tag => exact follows_single suffix tag rest
  | opening tag => exact follows_opening tag rest
  | closing tag => exact follows_closing tag rest

theorem apart_compiled (suffix : Text) : Apart (.compiled suffix) := by
  intro token rest hn
  cases token with
  | code => exact Marker.follows_encode ..
  | _ => exact apart_shown suffix _ rest hn

theorem step_marker (kind : Marker) {content new rest : Text} {Makes : Text → Text → Prop}
    (hc : content ≠ []) (hm : Makes (Marker.payloadOf content) new) :
    Found.Step (Marker.read? kind) Makes (Marker.encode kind content) new rest :=
  .inr ⟨Marker.encode_ne_nil kind content, Marker.payloadOf content,
    Marker.read?_encode kind hc rest, hm⟩

variable {suffix : Text} {token : Token} {rest : Text}

theorem step_show (hs : '#' ∉ suffix) (hp : token.IsProper) (hc : token.Clear rest) :
    Found.Step (Marker.read? .code) Engine.ShowsCode
      (token.write (.compiled suffix)) (token.write (.shown suffix)) rest := by
  cases token with
  | text content => exact .inl ⟨rfl, Marker.silent_of_follows hp.2 hc⟩
  | code sigil payload =>
    exact step_marker .code (isSealed_meaning sigil hp.2.2).ne_nil (Marker.decode_payloadOf _)
  | literal interior => exact .inl ⟨rfl, Marker.silent_encode_literal _ hc⟩
  | single tag => exact step_kept (isSealed_single hs tag)
  | opening tag => exact step_kept (isSealed_opening tag)
  | closing tag => exact step_kept (isSealed_closing tag)

theorem step_reveal (hs : '#' ∉ suffix) (hp : token.IsProper) (hc : token.Clear rest) :
    Found.Step (Marker.read? .literal) Engine.ShowsLiteral
      (token.write (.shown suffix)) (token.write (.target suffix)) rest := by
  cases token with
  | text content => exact .inl ⟨rfl, Marker.silent_of_follows hp.2 hc⟩
  | code sigil payload => exact step_kept (isSealed_meaning sigil hp.2.2)
  | literal interior =>
    exact step_marker .literal (Text.strip_ne_nil hp.1) ⟨_, Marker.decode_payloadOf _, rfl⟩
  | single tag => exact step_kept (isSealed_single hs tag)
  | opening tag => exact step_kept (isSealed_opening tag)
  | closing tag => exact step_kept (isSealed_closing tag)

end

end Template

end ThemeMarkup
