import Artel.Protocol.Signing

namespace Artel.Fs

/-- A part of a path below the root; a file name is any bytes. -/
inductive Component
  | normal (part : Bytes)
  | curDir
  | parentDir
  | rootDir
  deriving DecidableEq

abbrev RelPath := List Component

def Component.asOsStr : Component → Bytes
  | .normal part => part
  | .curDir => Signing.ascii ['.']
  | .parentDir => Signing.ascii ['.', '.']
  | .rootDir => Signing.ascii ['/']

structure Unicode where
  isUtf8 : Bytes → Bool
  nfc : Bytes → Bytes

inductive InvalidPath
  | nonUtf8
  | parentTraversal
  | notRelative
  deriving DecidableEq

section

variable (unicode : Unicode)

def normalisedParts : RelPath → Except InvalidPath (List Bytes)
  | [] => .ok []
  | .normal part :: rest =>
    if unicode.isUtf8 part then (normalisedParts rest).map (unicode.nfc part :: ·)
    else .error .nonUtf8
  | .curDir :: rest => normalisedParts rest
  | .parentDir :: _ => .error .parentTraversal
  | .rootDir :: _ => .error .notRelative

def KEY_PREFIX : Bytes := Signing.ascii ['p', 'a', 't', 'h', '/']

def joined (parts : List Bytes) : Bytes := (Signing.ascii ['/']).intercalate parts

def pathToKey (rel : RelPath) : Except InvalidPath Bytes :=
  (normalisedParts unicode rel).map fun parts => KEY_PREFIX ++ joined parts

def pathToMatchString (rel : RelPath) : Option Bytes :=
  (normalisedParts unicode rel).toOption.map joined

end

inductive Mode
  | readWrite
  | readOnly
  deriving DecidableEq

/-- Compiled rules; the set gives the indices of the globs that match a text. -/
structure CompiledPathRules where
  default : Mode
  set : Bytes → List ℕ
  modes : List Mode
  bounded : ∀ hay, ∀ idx ∈ set hay, idx < modes.length

def CompiledPathRules.modeFor (rules : CompiledPathRules) (unicode : Unicode) (rel : RelPath) :
    Mode :=
  match pathToMatchString unicode rel with
  | none => rules.default
  | some hay =>
    match (rules.set hay).head? with
    | some idx => rules.modes.getD idx rules.default
    | none => rules.default

def CompiledPathRules.all (mode : Mode) : CompiledPathRules := ⟨mode, fun _ => [], [], nofun⟩

@[simp] theorem CompiledPathRules.modeFor_all (mode : Mode) (unicode : Unicode) (rel : RelPath) :
    (CompiledPathRules.all mode).modeFor unicode rel = mode := by
  unfold CompiledPathRules.modeFor
  split <;> rfl

inductive ExcludeRules
  | dotfiles
  | globs (isMatch : Bytes → Bool)

def ExcludeRules.matches (exclude : ExcludeRules) (unicode : Unicode) (rel : RelPath) : Bool :=
  match exclude with
  | .dotfiles => rel.any fun
    | .normal part => (Signing.ascii ['.']).isPrefixOf part
    | .curDir | .parentDir | .rootDir => false
  | .globs isMatch => (pathToMatchString unicode rel).any isMatch

inductive SkipReason
  | hardcoded
  | excluded
  | symlink
  | tooLarge (size : ℕ)
  deriving DecidableEq

inductive FilterDecision
  | included
  | skip (reason : SkipReason)
  deriving DecidableEq

instance : LawfulBEq Bytes := inferInstance

/-- What must never sync whatever the configuration. -/
def isHardcodedSkip (unicode : Unicode) (rel : RelPath) : Bool :=
  rel.any fun component =>
    let s := component.asOsStr
    unicode.isUtf8 s &&
      (decide (s ∈ [Signing.ascii ['.', 'g', 'i', 't'],
          Signing.ascii ['t', 'a', 'r', 'g', 'e', 't'],
          Signing.ascii ['n', 'o', 'd', 'e', '_', 'm', 'o', 'd', 'u', 'l', 'e', 's'],
          Signing.ascii ['.', 'D', 'S', '_', 'S', 't', 'o', 'r', 'e'],
          Signing.ascii ['.', 'a', 'r', 't', 'e', 'l', '-', 'f', 's']]) ||
        (Signing.ascii ['.', 's', 'w', 'p']).isSuffixOf s ||
        (Signing.ascii ['.', 't', 'm', 'p']).isSuffixOf s)

/-- The path or a directory above it is a link. Only normal components extend the walk. -/
def hasSymlinkInPath (isSymlink : List Bytes → Bool) (rel : RelPath) : Bool :=
  let parts := rel.filterMap fun
    | .normal part => some part
    | .curDir | .parentDir | .rootDir => none
  parts.inits.tail.any isSymlink

structure WorkspaceFilter where
  unicode : Unicode
  exclude : ExcludeRules
  /-- Nothing if there is no limit. -/
  maxFileSize : Option ℕ

/-- Whether a path is to sync; `size` is that of the file there, if one is. -/
def WorkspaceFilter.check (filter : WorkspaceFilter) (isSymlink : List Bytes → Bool) (rel : RelPath)
    (size : Option ℕ) : FilterDecision :=
  if isHardcodedSkip filter.unicode rel then .skip .hardcoded
  else if hasSymlinkInPath isSymlink rel then .skip .symlink
  else if filter.exclude.matches filter.unicode rel then .skip .excluded
  else
    match filter.maxFileSize, size with
    | some cap, some size => if cap < size then .skip (.tooLarge size) else .included
    | none, _ | _, none => .included

theorem WorkspaceFilter.check_eq_included {filter : WorkspaceFilter} {isSymlink : List Bytes → Bool}
    {rel : RelPath} {size : Option ℕ} :
    filter.check isSymlink rel size = .included ↔
      isHardcodedSkip filter.unicode rel = false ∧ hasSymlinkInPath isSymlink rel = false ∧
      filter.exclude.matches filter.unicode rel = false ∧
      ∀ cap, filter.maxFileSize = some cap → ∀ n, size = some n → n ≤ cap := by
  unfold WorkspaceFilter.check
  cases isHardcodedSkip filter.unicode rel
  · cases hasSymlinkInPath isSymlink rel
    · cases filter.exclude.matches filter.unicode rel
      · cases filter.maxFileSize <;> cases size <;> simp
      · simp
    · simp
  · simp

end Artel.Fs
