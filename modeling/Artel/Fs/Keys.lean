import Mathlib.Data.List.Infix
import Mathlib.Data.List.Basic
import Artel.Fs.Filter

namespace Artel.Fs

open List

abbrev Path := List Bytes

instance : LawfulBEq Path := inferInstance

def Path.rel (path : Path) : RelPath := path.map Component.normal

theorem mem_tail_inits {path above : Path} :
    above ∈ path.inits.tail ↔ above <+: path ∧ above ≠ [] := by
  cases path with
  | nil => simp
  | cons name path =>
    cases above with
    | nil => simp
    | cons first above => simp [eq_comm, and_comm]

theorem hasSymlinkInPath_rel {isSymlink : List Bytes → Bool} {path : Path} :
    hasSymlinkInPath isSymlink path.rel = false ↔
      ∀ above, above <+: path → above ≠ [] → isSymlink above = false := by
  have hany : hasSymlinkInPath isSymlink path.rel = path.inits.tail.any isSymlink := by
    simp [hasSymlinkInPath, Path.rel, filterMap_map]
  simp only [hany, any_eq_false, mem_tail_inits, Bool.not_eq_true, and_imp]

/-- A component that is a name, so not nothing, `.`, `..` or several names. -/
structure IsName (part : Bytes) : Prop where
  ne_nil : part ≠ []
  ne_dot : part ≠ Signing.ascii ['.']
  ne_dotdot : part ≠ Signing.ascii ['.', '.']
  no_slash : 47 ∉ part

inductive InvalidKey
  | wrongPrefix
  | nonUtf8
  | absolute
  | parentTraversal
  | namesNoPath
  deriving DecidableEq

/-- A path that a key names. A key that ends in a slash or a dot names it as a directory. -/
structure KeyPath where
  parts : Path
  asDir : Bool
  ne_nil : parts ≠ []
  isName : ∀ part ∈ parts, IsName part

def segments (rel : Bytes) : List Bytes := rel.splitOn 47

def normalSegments (rel : Bytes) : Path :=
  (segments rel).filter fun segment => segment ≠ [] ∧ segment ≠ Signing.ascii ['.']

def isAsciiAlphabetic (b : UInt8) : Bool := (65 ≤ b && b ≤ 90) || (97 ≤ b && b ≤ 122)

def hasWindowsDrivePrefix : Bytes → Bool
  | first :: second :: _ => isAsciiAlphabetic first && second == 58
  | [_] | [] => false

theorem not_mem_of_mem_splitOnPPrepend {α : Type} {p : α → Bool} {a : α} (ha : p a = true)
    {l acc part : List α} (hacc : a ∉ acc) (h : part ∈ l.splitOnPPrepend p acc) : a ∉ part := by
  induction l generalizing acc with
  | nil =>
    rw [List.splitOnPPrepend, mem_singleton] at h
    simpa [h] using hacc
  | cons b l ih =>
    rw [List.splitOnPPrepend] at h
    split at h
    · obtain rfl | h := mem_cons.mp h
      · simpa using hacc
      · exact ih not_mem_nil h
    · have hne : a ≠ b := by
        rintro rfl
        contradiction
      exact ih (by simp [hne, hacc]) h

theorem isName_of_mem_normalSegments {rel part : Bytes}
    (hup : Signing.ascii ['.', '.'] ∉ segments rel) (h : part ∈ normalSegments rel) :
    IsName part := by
  obtain ⟨hin, hnormal⟩ := mem_filter.mp h
  obtain ⟨hnil, hdot⟩ := of_decide_eq_true hnormal
  refine ⟨hnil, hdot, fun heq => hup (heq ▸ hin), ?_⟩
  exact not_mem_of_mem_splitOnPPrepend (p := (· == 47)) rfl not_mem_nil hin

/-- The path that a key names; of what a peer can write, only this is checked. -/
def keyToPath (unicode : Unicode) (key : Bytes) : Except InvalidKey KeyPath :=
  if KEY_PREFIX.isPrefixOf key = false then .error .wrongPrefix
  else
    let rel := key.drop KEY_PREFIX.length
    if unicode.isUtf8 rel = false then .error .nonUtf8
    else if rel.head? = some 47 ∨ rel.head? = some 92 then .error .absolute
    else if hasWindowsDrivePrefix rel then .error .absolute
    else if hup : Signing.ascii ['.', '.'] ∈ segments rel then .error .parentTraversal
    else if hne : normalSegments rel = [] then .error .namesNoPath
    else
      .ok ⟨normalSegments rel, (segments rel).getLast?.any (· ∈ [[], Signing.ascii ['.']]), hne,
        fun _ => isName_of_mem_normalSegments hup⟩

/-- The key is the one that its path is published under. -/
def Canonical (unicode : Unicode) (key : Bytes) (path : KeyPath) : Prop :=
  path.asDir = false ∧ pathToKey unicode path.parts.rel = .ok key

theorem Canonical.inj {unicode : Unicode} {key key' : Bytes} {path path' : KeyPath}
    (h : Canonical unicode key path) (h' : Canonical unicode key' path')
    (hparts : path.parts = path'.parts) : key = key' := by
  have hkey := h.2
  rw [hparts, h'.2] at hkey
  exact (Except.ok.inj hkey).symm

theorem isUtf8_of_normalisedParts {unicode : Unicode} {path : Path} {parts : List Bytes}
    (h : normalisedParts unicode path.rel = .ok parts) : ∀ part ∈ path, unicode.isUtf8 part := by
  induction path generalizing parts with
  | nil => exact fun part hpart => absurd hpart not_mem_nil
  | cons name path ih =>
    rw [Path.rel, map_cons, normalisedParts] at h
    split at h
    · rename_i hutf8
      cases hrest : normalisedParts unicode (path.map .normal) with
      | error reason => simp [hrest, Except.map] at h
      | ok rest => exact forall_mem_cons.mpr ⟨hutf8, ih hrest⟩
    · cases h

theorem Canonical.isUtf8 {unicode : Unicode} {key : Bytes} {path : KeyPath}
    (h : Canonical unicode key path) : ∀ part ∈ path.parts, unicode.isUtf8 part := by
  have hkey := h.2
  cases hparts : normalisedParts unicode path.parts.rel with
  | error reason => simp [pathToKey, hparts, Except.map] at hkey
  | ok parts => exact isUtf8_of_normalisedParts hparts

/-- UTF-8 texts can be joined, and the composed form of a name is a name. -/
structure Unicode.Lawful (unicode : Unicode) : Prop where
  slash : unicode.isUtf8 (Signing.ascii ['/'])
  append : ∀ a b, unicode.isUtf8 a → unicode.isUtf8 b → unicode.isUtf8 (a ++ b)
  nfc : ∀ part, unicode.isUtf8 part → IsName part →
    unicode.isUtf8 (unicode.nfc part) ∧ IsName (unicode.nfc part)

structure Names (unicode : Unicode) (path : Path) : Prop where
  ne_nil : path ≠ []
  isUtf8 : ∀ part ∈ path, unicode.isUtf8 part
  isName : ∀ part ∈ path, IsName part

/-- A key that begins with this name is taken for an absolute path. -/
def looksAbsolute (name : Bytes) : Bool := name.head? == some 92 || hasWindowsDrivePrefix name

section RoundTrip

variable {unicode : Unicode} {path : Path}

theorem Names.nfc (h : Names unicode path) (laws : unicode.Lawful) :
    Names unicode (path.map unicode.nfc) where
  ne_nil := by simpa using h.ne_nil
  isUtf8 := by simpa using fun part hpart => (laws.nfc part (h.isUtf8 part hpart) (h.isName part hpart)).1
  isName := by simpa using fun part hpart => (laws.nfc part (h.isUtf8 part hpart) (h.isName part hpart)).2

theorem Names.pathToKey (h : Names unicode path) :
    pathToKey unicode path.rel = .ok (KEY_PREFIX ++ joined (path.map unicode.nfc)) := by
  have hparts : ∀ path : Path, (∀ part ∈ path, unicode.isUtf8 part) →
      normalisedParts unicode path.rel = .ok (path.map unicode.nfc) := by
    intro path hutf8
    induction path with
    | nil => rfl
    | cons name path ih =>
      have hrest := ih fun part hpart => hutf8 part (mem_cons_of_mem name hpart)
      rw [Path.rel] at hrest
      rw [Path.rel, map_cons, normalisedParts, if_pos (hutf8 name mem_cons_self), hrest]
      rfl
  rw [Fs.pathToKey, hparts path h.isUtf8]
  rfl

theorem Names.segments (h : Names unicode path) : segments (joined path) = path :=
  splitOn_intercalate 47 (fun part hpart => (h.isName part hpart).no_slash) h.ne_nil

theorem joined_cons (name next : Bytes) (path : Path) :
    joined (name :: next :: path) = name ++ Signing.ascii ['/'] ++ joined (next :: path) := by
  simp [joined, intercalate]

theorem Names.isUtf8_joined (h : Names unicode path) (laws : unicode.Lawful) :
    unicode.isUtf8 (joined path) := by
  obtain ⟨hne, hutf8, -⟩ := h
  induction path with
  | nil => exact absurd rfl hne
  | cons name path ih =>
    have hname := hutf8 name mem_cons_self
    cases path with
    | nil => simpa [joined, intercalate] using hname
    | cons next path =>
      have hrest := ih (cons_ne_nil _ _) fun part hpart => hutf8 part (mem_cons_of_mem name hpart)
      rw [joined_cons]
      exact laws.append _ _ (laws.append _ _ hname laws.slash) hrest

theorem Names.looksAbsolute (h : Names unicode path) :
    ((joined path).head? = some 47 ∨ (joined path).head? = some 92) ∨
        hasWindowsDrivePrefix (joined path) = true ↔
      looksAbsolute (path.head h.ne_nil) = true := by
  cases path with
  | nil => exact absurd rfl h.ne_nil
  | cons name path =>
    obtain ⟨hne, -, -, hslash⟩ := h.isName name mem_cons_self
    have hjoin : joined (name :: path) = name ∨ ∃ rest, joined (name :: path) = name ++ 47 :: rest := by
      cases path with
      | nil => exact .inl (by simp [joined, intercalate])
      | cons next path => exact .inr ⟨_, (joined_cons ..).trans (append_assoc ..)⟩
    cases name with
    | nil => exact absurd rfl hne
    | cons b name =>
      have hb : b ≠ 47 := fun heq => hslash (heq ▸ mem_cons_self)
      rcases hjoin with hjoin | ⟨rest, hjoin⟩ <;> rw [hjoin] <;> cases name <;>
        simp [Fs.looksAbsolute, hasWindowsDrivePrefix, hb]

/-- The path comes back from its key, composed. -/
def RoundTrips (unicode : Unicode) (path : Path) : Prop :=
  ∃ key back, Fs.pathToKey unicode path.rel = .ok key ∧ keyToPath unicode key = .ok back ∧
    back.parts = path.map unicode.nfc ∧ back.asDir = false

theorem Names.keyToPath (h : Names unicode path) (laws : unicode.Lawful)
    (hrel : Fs.looksAbsolute (path.head h.ne_nil) = false) :
    ∃ back, keyToPath unicode (KEY_PREFIX ++ joined path) = .ok back ∧ back.parts = path ∧
      back.asDir = false := by
  have hnot : ¬ _ := fun habs => by simpa [hrel] using h.looksAbsolute.mp habs
  obtain ⟨habs, hdrive⟩ := not_or.mp hnot
  have hnormal : normalSegments (joined path) = path := by
    rw [normalSegments, h.segments, filter_eq_self]
    exact fun part hpart => decide_eq_true ⟨(h.isName part hpart).ne_nil, (h.isName part hpart).ne_dot⟩
  have hup : Signing.ascii ['.', '.'] ∉ Fs.segments (joined path) := by
    rw [h.segments]
    exact fun hin => (h.isName _ hin).ne_dotdot rfl
  have hdrop : (KEY_PREFIX ++ joined path).drop KEY_PREFIX.length = joined path := drop_left
  unfold Fs.keyToPath
  rw [if_neg (by simp), hdrop, if_neg (by simp [h.isUtf8_joined laws]), if_neg habs, if_neg hdrive,
    dif_neg hup, dif_neg (by rw [hnormal]; exact h.ne_nil)]
  refine ⟨_, rfl, hnormal, ?_⟩
  rw [h.segments, getLast?_eq_some_getLast h.ne_nil]
  have hlast := h.isName _ (getLast_mem h.ne_nil)
  simp [hlast.ne_nil, hlast.ne_dot]

/-- A path comes back from its key unless its first name begins an absolute path. -/
theorem roundTrips_iff (laws : unicode.Lawful) (h : Names unicode path) :
    (∃ key, Fs.pathToKey unicode path.rel = .ok key) ∧
    (RoundTrips unicode path ↔ Fs.looksAbsolute (unicode.nfc (path.head h.ne_nil)) = false) ∧
    ∀ other, Names unicode other → path.map unicode.nfc = path → other.map unicode.nfc = other →
      Fs.pathToKey unicode path.rel = Fs.pathToKey unicode other.rel → path = other := by
  have hnfc := h.nfc laws
  have hhead : (path.map unicode.nfc).head hnfc.ne_nil = unicode.nfc (path.head h.ne_nil) := by
    rw [head_map]
  refine ⟨⟨_, h.pathToKey⟩, ⟨?_, fun hrel => ?_⟩, fun other hother hpath hother' heq => ?_⟩
  · rintro ⟨key, back, hkey, hback, -⟩
    rw [h.pathToKey] at hkey
    cases hkey
    by_contra habs
    rw [← hhead, Bool.not_eq_false, ← hnfc.looksAbsolute] at habs
    unfold Fs.keyToPath at hback
    rw [if_neg (by simp), drop_left, if_neg (by simp [hnfc.isUtf8_joined laws])] at hback
    split_ifs at hback
    simp_all
  · rw [← hhead] at hrel
    obtain ⟨back, hback, hparts⟩ := hnfc.keyToPath laws hrel
    exact ⟨_, back, h.pathToKey, hback, hparts⟩
  · rw [h.pathToKey, hother.pathToKey, hpath, hother', Except.ok.injEq, append_right_inj] at heq
    rw [← h.segments, heq, hother.segments]

end RoundTrip

namespace Sample

def unicode : Unicode := ⟨fun _ => true, id⟩

theorem names_singleton {name : Bytes} (h : IsName name) : Names unicode [name] :=
  ⟨by simp, fun _ _ => rfl, by simpa using h⟩

/-- A file `c:x` gets a key that is refused as a drive. -/
theorem drive_name_lost :
    Names unicode [Signing.ascii ['c', ':', 'x']] ∧
      ¬ RoundTrips unicode [Signing.ascii ['c', ':', 'x']] := by
  refine ⟨names_singleton ⟨by decide, by decide, by decide, by decide⟩, ?_⟩
  rintro ⟨key, back, hkey, hback, -⟩
  cases hkey
  cases hback

theorem roundTrips_iff_name : RoundTrips unicode [Signing.ascii ['x', 'c', ':']] :=
  (roundTrips_iff ⟨rfl, fun _ _ _ _ => rfl, fun _ _ h => ⟨rfl, h⟩⟩
    (names_singleton ⟨by decide, by decide, by decide, by decide⟩)).2.1.mpr rfl

end Sample

end Artel.Fs
