import ThemeMarkup.Cache
import ThemeMarkup.Proofs.Except
import ThemeMarkup.Proofs.Store
import ThemeMarkup.Proofs.Text.Utf8
import ThemeMarkup.View

namespace ThemeMarkup

namespace Text

variable {head text : Text}

theorem unifyLineEnds_cons {c : Char} (hc : c ≠ '\r') (text : Text) :
    unifyLineEnds (c :: text) = c :: unifyLineEnds text := by
  rw [unifyLineEnds]
  · rintro rest rfl
    contradiction
  · rintro rfl
    contradiction

theorem unifyLineEnds_append (h : '\r' ∉ head) (text : Text) :
    unifyLineEnds (head ++ text) = head ++ unifyLineEnds text := by
  induction head with
  | nil => rfl
  | cons c head ih =>
    obtain ⟨hc, hh⟩ := List.ne_and_not_mem_of_not_mem_cons h
    rw [List.cons_append, unifyLineEnds_cons (Ne.symm hc), ih hh, List.cons_append]

theorem unifyLineEnds_eq_self (h : '\r' ∉ text) : unifyLineEnds text = text := by
  have happ := unifyLineEnds_append h []
  rwa [unifyLineEnds, List.append_nil] at happ

def IsLine (text : Text) : Prop :=
  '\n' ∉ text ∧ '\r' ∉ text

instance (text : Text) : Decidable text.IsLine :=
  inferInstanceAs (Decidable (_ ∧ _))

theorem isLine_cacheHeader {stamp : Text} (h : stamp.IsLine) :
    (Compiler.cacheHeader stamp).IsLine := by
  have hopen : Text.IsLine "\x7b# " := by decide
  have hclose : Text.IsLine " #\x7d" := by decide
  constructor
  · exact List.not_mem_append (List.not_mem_append hopen.1 h.1) hclose.1
  · exact List.not_mem_append (List.not_mem_append hopen.2 h.2) hclose.2

end Text

theorem View.withoutHeader_append {head : Text} (h : '\n' ∉ head) (text : Text) :
    withoutHeader (head ++ '\n' :: text) = text := by
  have hpass : ∀ c ∈ head, decide (c ≠ '\n') = true := by
    intro c hc
    rw [decide_eq_true_eq]
    rintro rfl
    exact h hc
  rw [withoutHeader, List.dropWhile_append_of_pos hpass]
  rfl

namespace Digest

theorem length_littleEndian (n count : Nat) : (littleEndian n count).length = count := by
  induction count generalizing n with
  | zero => rfl
  | succ count ih => rw [littleEndian, List.length_cons, ih]

theorem length_flatMap_hexOctet (octets : Octets) :
    (octets.flatMap hexOctet).length = 2 * octets.length := by
  induction octets with
  | nil => rfl
  | cons octet octets ih =>
    rw [List.flatMap_cons, List.length_append, ih, List.length_cons, hexOctet]
    simp only [List.length_cons, List.length_nil]
    omega

theorem length_ofOctets (message : Octets) : (ofOctets message).length = 32 := by
  simp only [ofOctets, List.flatMap_cons, List.flatMap_nil, List.length_append,
    length_flatMap_hexOctet, length_littleEndian, List.length_nil]

end Digest

namespace Cache

variable {engine : Engine} {store : Store} {location : Location}

def digest (location : Location) : Text :=
  Digest.ofOctets (Utf8.encode (Path.toText { root := ['/'], parts := location }))

theorem digest_eq_of_fileName_eq {other : Location}
    (h : fileName { root := ['/'], parts := location } =
      fileName { root := ['/'], parts := other }) :
    digest location = digest other := by
  simp only [fileName, List.append_assoc] at h
  exact (List.append_inj h (by rw [Digest.length_ofOctets, Digest.length_ofOctets])).1

theorem fileName_ne_points (source : Path) : fileName source ≠ ['.', '.'] := by
  intro h
  have hlength := congrArg List.length h
  simp only [fileName, List.length_append, Digest.length_ofOctets, List.length_cons,
    List.length_nil] at hlength
  omega

def headed (stamp compiled : Text) : Text :=
  Compiler.cacheHeader stamp ++ '\n' :: compiled

theorem read_headed {path : Path} {file : File} {stamp compiled : Text}
    (hf : store.find path = .ok file) (h : file.octets = Utf8.encode (headed stamp compiled))
    (hs : stamp.IsLine) :
    store.readExact path = .ok (headed stamp compiled) ∧
      ∃ text, store.read path = .ok text ∧
        View.withoutHeader text = Text.unifyLineEnds compiled := by
  have hexact : store.readExact path = .ok (headed stamp compiled) := by
    rw [Store.readExact, hf]
    simp only [bind, Except.bind, h, Utf8.decode_encode]
    rfl
  have hline := Text.isLine_cacheHeader hs
  refine ⟨hexact, Text.unifyLineEnds (headed stamp compiled), by rw [Store.read, hexact]; rfl, ?_⟩
  rw [headed, Text.unifyLineEnds_append hline.2, Text.unifyLineEnds_cons (by decide)]
  exact View.withoutHeader_append hline.1 _

theorem write_apply (path : Path) (compiled header : Text) (store : Store) :
    write path compiled header store =
      match store.write path ⟨Utf8.encode (header ++ ['\n'] ++ compiled), store.clock⟩ with
      | .error e => (.error e, store)
      | .ok written => (.ok path, { written with clock := store.clock + 1 }) := by
  simp only [write, Operation.bind_apply, Operation.get_apply]
  split
  · next h => simp only [h, Operation.throw_apply]
  · next h => simp only [h, Operation.bind_apply, Operation.set_apply, Operation.pure_apply]

def templateOf (store : Store) (file : Path) : Except Error Text :=
  if store.isFile file then store.read file else .error (.missingSource file.toText)

/-- What a template file compiles to, and the store in which its cache file is written. -/
def renewed (engine : Engine) (file path : Path) (store : Store) : Except Error (Text × Store) := do
  let template ← templateOf store file
  let compiled ← engine.compile template (some file.toText)
  let after ← store.write path ⟨Utf8.encode (headed store.stamp compiled), store.clock⟩
  return (compiled, { after with clock := store.clock + 1 })

/-- Compiling a template file into its cache file leaves the store as it is if it fails. -/
theorem compileFile_apply (engine : Engine) (file path : Path) (store : Store) :
    compileFile engine file (some path) store =
      match renewed engine file path store with
      | .error e => (.error e, store)
      | .ok (compiled, after) => (.ok compiled, after) := by
  have hheaded (compiled : Text) :
      Compiler.cacheHeader store.stamp ++ ['\n'] ++ compiled = headed store.stamp compiled :=
    List.append_assoc ..
  simp only [compileFile, renewed, templateOf, Operation.bind_apply, Operation.get_apply]
  cases hf : store.isFile file with
  | false => rfl
  | true =>
    simp only [Bool.not_true, Bool.false_eq_true, ↓reduceIte, Operation.bind_apply,
      Operation.pure_apply, Operation.lift_apply]
    cases hr : store.read file with
    | error e => rfl
    | ok template =>
      dsimp only [bind, Except.bind]
      cases hc : engine.compile template (some file.toText) with
      | error e => rfl
      | ok compiled =>
        simp only [write_apply, hheaded]
        cases store.write path ⟨Utf8.encode (headed store.stamp compiled), store.clock⟩ <;> rfl

theorem renewed_eq_ok_iff {file path : Path} {compiled : Text} {after : Store} :
    renewed engine file path store = .ok (compiled, after) ↔
      ∃ template written, store.isFile file = true ∧ store.read file = .ok template ∧
        engine.compile template (some file.toText) = .ok compiled ∧
        store.write path ⟨Utf8.encode (headed store.stamp compiled), store.clock⟩ = .ok written ∧
        after = { written with clock := store.clock + 1 } := by
  constructor
  · intro h
    rw [renewed] at h
    obtain ⟨template, hr, h⟩ := Except.bind_eq_ok_iff.1 h
    obtain ⟨compiled, hc, h⟩ := Except.bind_eq_ok_iff.1 h
    obtain ⟨written, hw, h⟩ := Except.bind_eq_ok_iff.1 h
    cases h
    rw [templateOf] at hr
    split at hr
    · next hf => exact ⟨template, written, hf, hr, hc, hw, rfl⟩
    · contradiction
  · rintro ⟨template, written, hf, hr, hc, hw, rfl⟩
    rw [renewed, templateOf, if_pos hf, hr]
    dsimp only [bind, Except.bind]
    rw [hc]
    dsimp only
    rw [hw]
    rfl

theorem isStale_of_not_present {store : Store} {file cache : Path}
    (h : store.present cache = false) :
    isStale store file cache = .ok true := by
  rw [isStale, h]
  rfl

end Cache

namespace View

variable {view : View} {file : Path} {store : Store}

/-- What compiling a file comes to: it fails and leaves the store as it is, it finds the cache file
no older than the file, or it writes the cache file. -/
inductive Outcome (view : View) (file : Path) (store : Store) :
    Except Error Path × Store → Prop where
  | failed (e : Error) : Outcome view file store (.error e, store)
  | fresh {cached source : Int} (caches : store.timeOf (view.cacheOf store file) = .ok cached)
      (finds : store.timeOf file = .ok source) (later : source ≤ cached) :
      Outcome view file store (.ok (view.cacheOf store file), store)
  | renewed {compiled : Text} {after : Store}
      (renews : Cache.renewed view.engine file (view.cacheOf store file) store =
        .ok (compiled, after)) :
      Outcome view file store (.ok (view.cacheOf store file), after)

theorem outcome_of_fresh (h : Cache.isStale store file (view.cacheOf store file) = .ok false) :
    view.Outcome file store (.ok (view.cacheOf store file), store) := by
  rw [Cache.isStale] at h
  split at h
  · contradiction
  · obtain ⟨cached, hc, h⟩ := Except.bind_eq_ok_iff.1 h
    obtain ⟨source, hs, h⟩ := Except.bind_eq_ok_iff.1 h
    have hlater := of_decide_eq_false (Except.ok.inj h)
    exact .fresh hc hs (Int.not_lt.1 hlater)

theorem outcome_compile (view : View) (file : Path) (store : Store) :
    view.Outcome file store (view.compile file store) := by
  simp only [compile, Operation.bind_apply, Operation.get_apply, Operation.lift_apply]
  cases hstale : Cache.isStale store file (view.cacheOf store file) with
  | error e => exact .failed e
  | ok stale =>
    cases stale with
    | false =>
      dsimp only
      rw [if_neg Bool.false_ne_true, Operation.pure_apply]
      exact outcome_of_fresh hstale
    | true =>
      dsimp only
      rw [if_pos rfl, Operation.bind_apply, Cache.compileFile_apply]
      cases hr : Cache.renewed view.engine file (view.cacheOf store file) store with
      | error e => exact .failed e
      | ok result => exact .renewed hr

theorem compile_of_not_present {compiled : Text} {after : Store}
    (hp : store.present (view.cacheOf store file) = false)
    (hr : Cache.renewed view.engine file (view.cacheOf store file) store = .ok (compiled, after)) :
    view.compile file store = (.ok (view.cacheOf store file), after) := by
  simp only [compile, Operation.bind_apply, Operation.get_apply, Operation.lift_apply,
    Cache.isStale_of_not_present hp, ↓reduceIte, Cache.compileFile_apply, hr, Operation.pure_apply]

theorem load_of_compile {name text : Text} {cache : Path} {cached : File} {after : Store}
    (hf : view.findToLoad store name = .ok file)
    (hc : view.compile file store = (.ok cache, after)) (hfind : after.find cache = .ok cached)
    (hread : after.read cache = .ok text) :
    view.load name store =
      (.ok { file, cache, modified := cached.modified, text := withoutHeader text }, after) := by
  simp only [load, Operation.bind_apply, Operation.get_apply, Operation.lift_apply, hf, hc,
    Store.timeOf_of_find hfind, hread, Operation.pure_apply]

end View

end ThemeMarkup
