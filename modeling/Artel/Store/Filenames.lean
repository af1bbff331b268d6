import Artel.Protocol.Scopes

namespace Artel

def MAX_KIND_LEN : ℕ := 100

namespace Store

open Signing List

def ATTACHMENT_FILE_SUFFIX : Bytes := utf8 ".bin"

def hexDigit (n : UInt8) : UInt8 := if n < 10 then 48 + n else 87 + n

def hexBytes (bytes : Bytes) : Bytes :=
  bytes.flatMap fun b : UInt8 => [hexDigit (b >>> 4), hexDigit (b &&& 15)]

def attachmentFilename (kind : String) : Bytes := hexBytes (utf8 kind) ++ ATTACHMENT_FILE_SUFFIX

def decodeLowerHexNibble (c : UInt8) : Option UInt8 :=
  if 48 ≤ c ∧ c ≤ 57 then some (c - 48)
  else if 97 ≤ c ∧ c ≤ 102 then some (c - 97 + 10)
  else none

def decodeHexBytes : Bytes → Option Bytes
  | [] => some []
  | [_] => none
  | hi :: lo :: rest => do
    let hi ← decodeLowerHexNibble hi
    let lo ← decodeLowerHexNibble lo
    let rest ← decodeHexBytes rest
    return ((hi <<< 4) ||| lo) :: rest

def stripSuffix (suffix name : Bytes) : Option Bytes :=
  if suffix <:+ name then some (name.take (name.length - suffix.length)) else none

def decodeAttachmentFilename (name : Bytes) : Option String := do
  let stem ← stripSuffix ATTACHMENT_FILE_SUFFIX name
  let bytes ← decodeHexBytes stem
  String.fromUTF8? ⟨bytes.toArray⟩

def rsplitDot (name : Bytes) : Option (Bytes × Bytes) :=
  if 46 ∈ name then
    let behind := (name.reverse.takeWhile (· ≠ 46)).reverse
    some (name.take (name.length - behind.length - 1), behind)
  else none

def isNumber (part : Bytes) : Bool := !part.isEmpty && part.all fun c => 48 ≤ c && c ≤ 57

/-- The name of a file that is being written: `<hex>.bin.<pid>.<counter>.tmp`. -/
def isAttachmentTmp (name : Bytes) : Bool :=
  ((do
    let stem ← stripSuffix (utf8 ".tmp") name
    let (beforeCounter, counter) ← rsplitDot stem
    let (beforePid, pid) ← rsplitDot beforeCounter
    let hexStem ← stripSuffix ATTACHMENT_FILE_SUFFIX beforePid
    return isNumber counter && isNumber pid && !hexStem.isEmpty && hexStem.length % 2 = 0 &&
      hexStem.all fun c => (48 ≤ c && c ≤ 57) || (97 ≤ c && c ≤ 102)) : Option Bool).getD false

theorem stripSuffix_append (suffix stem : Bytes) : stripSuffix suffix (stem ++ suffix) = some stem := by
  rw [stripSuffix, if_pos (suffix_append stem suffix)]
  simp

theorem decode_hexDigits (b : UInt8) :
    decodeLowerHexNibble (hexDigit (b >>> 4)) = some (b >>> 4) ∧
      decodeLowerHexNibble (hexDigit (b &&& 15)) = some (b &&& 15) ∧
      ((b >>> 4) <<< 4) ||| (b &&& 15) = b := by
  have hall : ∀ n : Fin 256, decodeLowerHexNibble (hexDigit (UInt8.ofNat n >>> 4)) =
        some (UInt8.ofNat n >>> 4) ∧
      decodeLowerHexNibble (hexDigit (UInt8.ofNat n &&& 15)) = some (UInt8.ofNat n &&& 15) ∧
      ((UInt8.ofNat n >>> 4) <<< 4) ||| (UInt8.ofNat n &&& 15) = UInt8.ofNat n := by decide +kernel
  have hb := hall ⟨b.toNat, b.toNat_lt⟩
  rwa [UInt8.ofNat_toNat] at hb

theorem decodeHexBytes_hexBytes (bytes : Bytes) : decodeHexBytes (hexBytes bytes) = some bytes := by
  induction bytes with
  | nil => rfl
  | cons b bytes ih =>
    obtain ⟨hhi, hlo, hb⟩ := decode_hexDigits b
    have hcons : hexBytes (b :: bytes) = hexDigit (b >>> 4) :: hexDigit (b &&& 15) :: hexBytes bytes :=
      rfl
    simp only [hcons, decodeHexBytes, hhi, hlo, ih, Option.bind_eq_bind, Option.bind_some, hb]
    rfl

theorem decode_attachmentFilename (kind : String) :
    decodeAttachmentFilename (attachmentFilename kind) = some kind := by
  have hutf8 : String.fromUTF8? ⟨(utf8 kind).toArray⟩ = some kind := dif_pos kind.isValidUTF8
  simp only [decodeAttachmentFilename, attachmentFilename, stripSuffix_append,
    decodeHexBytes_hexBytes, Option.bind_eq_bind, Option.bind_some, hutf8]

theorem attachmentFilename_injective : Function.Injective attachmentFilename := by
  intro kind kind' h
  have hdecode := congrArg decodeAttachmentFilename h
  rw [decode_attachmentFilename, decode_attachmentFilename] at hdecode
  exact Option.some.inj hdecode

/-- The name of the file that a write of `name` goes to first. -/
def uniqueTmpName (name : Bytes) (pid : UInt32) (counter : UInt64) : Bytes :=
  name ++ 46 :: ascii (Nat.toDigits 10 pid.toNat) ++ 46 :: ascii (Nat.toDigits 10 counter.toNat) ++
    utf8 ".tmp"

/-- Names are ASCII, so this is how a filesystem that ignores case compares them. -/
def toAsciiLowercase (name : Bytes) : Bytes :=
  name.map fun c => if 65 ≤ c ∧ c ≤ 90 then c + 32 else c

theorem stripSuffix_eq_none {suffix other : Bytes} {a b : UInt8} (stem : Bytes)
    (ha : suffix.getLast? = some a) (hb : other.getLast? = some b) (hne : a ≠ b) :
    stripSuffix suffix (stem ++ other) = none := by
  apply if_neg
  rintro ⟨front, happend⟩
  have hlast := congrArg getLast? happend
  rw [getLast?_append, getLast?_append, ha, hb] at hlast
  exact hne (Option.some.inj hlast)

theorem isAttachmentTmp_attachmentFilename (kind : String) :
    isAttachmentTmp (attachmentFilename kind) = false := by
  have hnone : stripSuffix (utf8 ".tmp") (attachmentFilename kind) = none :=
    stripSuffix_eq_none (a := 112) (b := 110) _ (by decide) (by decide) (by decide)
  simp only [isAttachmentTmp, hnone, Option.bind_eq_bind, Option.bind_none, Option.getD_none]

theorem rsplitDot_append {before behind : Bytes} (h : 46 ∉ behind) :
    rsplitDot (before ++ 46 :: behind) = some (before, behind) := by
  have htake : (before ++ 46 :: behind).reverse.takeWhile (· ≠ 46) = behind.reverse := by
    rw [reverse_append, reverse_cons, append_assoc, takeWhile_append_of_pos]
    · simp
    · intro c hc
      have hne : c ≠ 46 := fun heq => h (heq ▸ mem_reverse.mp hc)
      simpa using hne
  have hlen : (before ++ 46 :: behind).length - behind.length - 1 = before.length := by
    simp only [length_append, length_cons]
    omega
  rw [rsplitDot, if_pos (by simp), htake, reverse_reverse]
  dsimp only
  rw [hlen, take_left]

theorem dot_not_mem_digits (n : ℕ) : 46 ∉ ascii (Nat.toDigits 10 n) :=
  fun h => absurd (digit_of_mem h).1 (by decide)

theorem isNumber_digits (n : ℕ) : isNumber (ascii (Nat.toDigits 10 n)) = true := by
  have hne : ascii (Nat.toDigits 10 n) ≠ [] := by
    simp [ascii, Nat.toDigits_ne_nil]
  simp only [isNumber, Bool.and_eq_true, Bool.not_eq_true', isEmpty_eq_false_iff,
    all_eq_true, decide_eq_true_eq]
  exact ⟨hne, fun c hc => digit_of_mem hc⟩

theorem mem_hexBytes {bytes : Bytes} {c : UInt8} (h : c ∈ hexBytes bytes) :
    (48 ≤ c ∧ c ≤ 57) ∨ (97 ≤ c ∧ c ≤ 102) := by
  obtain ⟨b, -, hc⟩ := mem_flatMap.mp h
  obtain ⟨hhi, hlo, -⟩ := decode_hexDigits b
  have hdigit : ∃ n, decodeLowerHexNibble c = some n := by
    simp only [mem_cons, not_mem_nil, or_false] at hc
    obtain rfl | rfl := hc
    · exact ⟨_, hhi⟩
    · exact ⟨_, hlo⟩
  grind [decodeLowerHexNibble]

theorem length_hexBytes (bytes : Bytes) : (hexBytes bytes).length = 2 * bytes.length := by
  induction bytes with
  | nil => rfl
  | cons b bytes ih =>
    have hcons : (hexBytes (b :: bytes)).length = (hexBytes bytes).length + 2 := rfl
    rw [hcons, ih, length_cons]
    omega

theorem toAsciiLowercase_attachmentFilename (kind : String) :
    toAsciiLowercase (attachmentFilename kind) = attachmentFilename kind := by
  have hbin : ∀ c ∈ ATTACHMENT_FILE_SUFFIX, ¬ (65 ≤ c ∧ c ≤ 90) := by decide +kernel
  have hlower : ∀ c ∈ attachmentFilename kind, ¬ (65 ≤ c ∧ c ≤ 90) := by
    intro c hc
    obtain hc | hc := mem_append.mp hc
    · have hhex := mem_hexBytes hc
      simp only [UInt8.le_iff_toNat_le, UInt8.reduceToNat] at hhex ⊢
      omega
    · exact hbin c hc
  conv_rhs => rw [← map_id (attachmentFilename kind)]
  exact map_congr_left fun c hc => if_neg (hlower c hc)

theorem isAttachmentTmp_uniqueTmpName {kind : String} (hkind : kind ≠ "") (pid : UInt32)
    (counter : UInt64) :
    isAttachmentTmp (uniqueTmpName (attachmentFilename kind) pid counter) = true := by
  have hhex : (hexBytes (utf8 kind)).all
      (fun c => (48 ≤ c && c ≤ 57) || (97 ≤ c && c ≤ 102)) = true := by
    rw [all_eq_true]
    intro c hc
    simpa using mem_hexBytes hc
  have hempty : (hexBytes (utf8 kind)).isEmpty = false := by
    rw [isEmpty_eq_false_iff]
    intro hnil
    apply hkind
    apply attachmentFilename_injective
    rw [attachmentFilename, hnil]
    rfl
  simp only [isAttachmentTmp, uniqueTmpName, stripSuffix_append, Option.bind_eq_bind,
    Option.bind_some, rsplitDot_append (dot_not_mem_digits _), attachmentFilename,
    isNumber_digits, hhex, hempty, length_hexBytes]
  simp

theorem decode_uniqueTmpName (name : Bytes) (pid : UInt32) (counter : UInt64) :
    decodeAttachmentFilename (uniqueTmpName name pid counter) = none := by
  have hnone : stripSuffix ATTACHMENT_FILE_SUFFIX (uniqueTmpName name pid counter) = none :=
    stripSuffix_eq_none (a := 110) (b := 112) _ (by decide) (by decide) (by decide)
  simp only [decodeAttachmentFilename, hnone, Option.bind_eq_bind, Option.bind_none]

end Store

end Artel
