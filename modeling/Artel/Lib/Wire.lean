import Mathlib.Data.List.Induction
import Mathlib.Tactic.Ring

namespace Artel

abbrev Bytes := List UInt8

/-- A byte array of fixed length, `[u8; n]`. -/
abbrev FixedBytes (n : ℕ) := { l : Bytes // l.length = n }

theorem FixedBytes.append_inj {n : ℕ} {a b : FixedBytes n} {s t : Bytes}
    (h : a.val ++ s = b.val ++ t) : a = b ∧ s = t := by
  obtain ⟨hval, hrest⟩ := List.append_inj h (by rw [a.property, b.property])
  exact ⟨Subtype.ext hval, hrest⟩

/-- `n` in `k` big-endian bytes, as `to_be_bytes` writes it. -/
def toBeBytes : ℕ → ℕ → Bytes
  | 0, _ => []
  | k + 1, n => toBeBytes k (n / 256) ++ [UInt8.ofNat (n % 256)]

def fromBeBytes (l : Bytes) : ℕ := l.foldl (fun n b => n * 256 + b.toNat) 0

@[simp] theorem toBeBytes_length (k n : ℕ) : (toBeBytes k n).length = k := by
  induction k generalizing n with
  | zero => rfl
  | succ k ih => simp [toBeBytes, ih]

theorem fromBeBytes_toBeBytes (k n : ℕ) (h : n < 256 ^ k) :
    fromBeBytes (toBeBytes k n) = n := by
  induction k generalizing n with
  | zero =>
    have hn : n = 0 := by simpa using h
    simp [toBeBytes, fromBeBytes, hn]
  | succ k ih =>
    -- the last byte is the remainder, the bytes before it are those of the quotient
    have hdiv : n / 256 < 256 ^ k := by
      rw [Nat.div_lt_iff_lt_mul (by norm_num)]
      rwa [pow_succ] at h
    have hb : (UInt8.ofNat (n % 256)).toNat = n % 256 := by
      rw [UInt8.toNat_ofNat']
      omega
    have hr : fromBeBytes (toBeBytes k (n / 256)) = n / 256 := ih _ hdiv
    unfold fromBeBytes at hr ⊢
    rw [toBeBytes, List.foldl_append, hr, List.foldl_cons, List.foldl_nil, hb]
    omega

theorem toBeBytes_injective (k n m : ℕ) (hn : n < 256 ^ k) (hm : m < 256 ^ k)
    (h : toBeBytes k n = toBeBytes k m) : n = m := by
  rw [← fromBeBytes_toBeBytes k n hn, h, fromBeBytes_toBeBytes k m hm]

theorem toBeBytes_fromBeBytes (l : Bytes) : toBeBytes l.length (fromBeBytes l) = l := by
  induction l using List.reverseRecOn with
  | nil => rfl
  | append_singleton l b ih =>
    have hsplit : fromBeBytes (l ++ [b]) = fromBeBytes l * 256 + b.toNat := by
      simp [fromBeBytes]
    have hb := b.toNat_lt
    have hdiv : (fromBeBytes l * 256 + b.toNat) / 256 = fromBeBytes l := by omega
    have hmod : (fromBeBytes l * 256 + b.toNat) % 256 = b.toNat := by omega
    rw [List.length_append, List.length_singleton, hsplit, toBeBytes, hdiv, hmod, ih]
    simp

/-- What is written reads back; `fits` is what the format can carry. -/
structure Wire (α : Type) where
  put : α → Bytes
  get : Bytes → Option (α × Bytes)
  fits : α → Prop
  get_put : ∀ a rest, fits a → get (put a ++ rest) = some (a, rest)

namespace Wire

variable {α β : Type}

/-- Trailing bytes are ignored, as a slice decoder that does not check for them does. -/
def decode (w : Wire α) (b : Bytes) : Option α := (w.get b).map Prod.fst

theorem decode_put (w : Wire α) (a : α) (h : w.fits a) : w.decode (w.put a) = some a := by
  have hp := w.get_put a [] h
  rw [List.append_nil] at hp
  simp [decode, hp]

theorem put_injective (w : Wire α) {a b : α} (ha : w.fits a) (hb : w.fits b)
    (h : w.put a = w.put b) : a = b := by
  have hd := w.decode_put a ha
  rw [h, w.decode_put b hb] at hd
  exact (Option.some.inj hd).symm

/-- Read with `w`, as the body of one variant. -/
def getAs (w : Wire α) (f : α → β) (b : Bytes) : Option (β × Bytes) :=
  (w.get b).map fun x => (f x.1, x.2)

theorem getAs_put (w : Wire α) (f : α → β) (a : α) (rest : Bytes) (h : w.fits a) :
    w.getAs f (w.put a ++ rest) = some (f a, rest) := by
  rw [getAs, w.get_put a rest h, Option.map_some]

def byte : Wire UInt8 where
  put b := [b]
  get
    | [] => none
    | b :: rest => some (b, rest)
  fits _ := True
  get_put _ _ _ := rfl

def pair (u : Wire α) (v : Wire β) : Wire (α × β) where
  put p := u.put p.1 ++ v.put p.2
  get b := (u.get b).bind fun x => (v.get x.2).map fun y => ((x.1, y.1), y.2)
  fits p := u.fits p.1 ∧ v.fits p.2
  get_put p rest h := by simp [List.append_assoc, u.get_put _ _ h.1, v.get_put _ _ h.2]

/-- Transport along an embedding `f` with partial inverse `g`. -/
def map (u : Wire α) (f : β → α) (g : α → Option β) (h : ∀ b, g (f b) = some b) : Wire β where
  put b := u.put (f b)
  get l := (u.get l).bind fun x => (g x.1).map fun y => (y, x.2)
  fits b := u.fits (f b)
  get_put b rest hb := by simp [u.get_put _ _ hb, h]

/-- Seven bits a byte, low group first, at most `k` bytes. -/
def putVarint : ℕ → ℕ → Bytes
  | 0, _ => []
  | k + 1, n =>
    if n < 128 then [UInt8.ofNat n] else UInt8.ofNat (n % 128 + 128) :: putVarint k (n / 128)

/-- `last` bounds the byte in the last position, so that the value fits its type. -/
def getVarint (last : ℕ) : ℕ → Bytes → Option (ℕ × Bytes)
  | 0, _ => none
  | _ + 1, [] => none
  | k + 1, b :: rest =>
    if b.toNat < 128 then
      if k = 0 ∧ last < b.toNat then none else some (b.toNat, rest)
    else (getVarint last k rest).map fun x => (b.toNat - 128 + 128 * x.1, x.2)

theorem getVarint_putVarint (last k n : ℕ) (rest : Bytes) (hlast : last < 128)
    (h : n < 128 ^ k * (last + 1)) :
    getVarint last (k + 1) (putVarint (k + 1) n ++ rest) = some (n, rest) := by
  induction k generalizing n with
  | zero =>
    have hn : n < last + 1 := by simpa using h
    have hb : (UInt8.ofNat n).toNat = n := by rw [UInt8.toNat_ofNat']; omega
    rw [putVarint, if_pos (by omega), List.cons_append, List.nil_append, getVarint, hb,
      if_pos (by omega), if_neg (by omega)]
  | succ k ih =>
    -- a group below 128 ends the number, any other leaves the quotient to the next byte
    by_cases hn : n < 128
    · have hb : (UInt8.ofNat n).toNat = n := by rw [UInt8.toNat_ofNat']; omega
      rw [putVarint, if_pos hn, List.cons_append, List.nil_append, getVarint, hb, if_pos hn,
        if_neg (by omega)]
    have hb : (UInt8.ofNat (n % 128 + 128)).toNat = n % 128 + 128 := by
      rw [UInt8.toNat_ofNat']
      omega
    have hdiv : n / 128 < 128 ^ k * (last + 1) := by
      rw [Nat.div_lt_iff_lt_mul (by norm_num)]
      calc n < 128 ^ (k + 1) * (last + 1) := h
        _ = 128 ^ k * (last + 1) * 128 := by ring
    have hr := ih (n / 128) hdiv
    rw [putVarint, if_neg hn, List.cons_append, getVarint, hb, if_neg (by omega), hr]
    simp only [Option.map_some, Option.some.injEq, Prod.mk.injEq, and_true]
    omega

/-- `varint(u64)`: ten bytes, the tenth carries one bit. -/
def varint64 : Wire UInt64 where
  put n := putVarint 10 n.toNat
  get b := (getVarint 1 10 b).map fun x => (UInt64.ofNat x.1, x.2)
  fits _ := True
  get_put n rest _ := by
    have h := getVarint_putVarint 1 9 n.toNat rest (by norm_num) (by
      have := n.toNat_lt
      norm_num
      omega)
    simp [h]

/-- Five bytes, for the index of an enum variant. -/
def variant : Wire ℕ where
  put n := putVarint 5 n
  get b := getVarint 15 5 b
  fits n := n < 2 ^ 32
  get_put n rest h := getVarint_putVarint 15 4 n rest (by omega) (by omega)

def varint32 : Wire UInt32 :=
  variant.map UInt32.toNat (fun n => some (UInt32.ofNat n)) (fun n => by simp)

def bytes : Wire Bytes where
  put l := putVarint 10 l.length ++ l
  get b := (getVarint 1 10 b).bind fun x =>
    if x.1 ≤ x.2.length then some (x.2.take x.1, x.2.drop x.1) else none
  fits l := l.length < 2 ^ 64
  get_put l rest h := by
    have hv := getVarint_putVarint 1 9 l.length (l ++ rest) (by norm_num) (by
      norm_num
      omega)
    simp [List.append_assoc, hv]

/-- A byte run of exactly `n` bytes, still behind its length. -/
def fixed (n : ℕ) : Wire (FixedBytes n) :=
  bytes.map Subtype.val (fun l => if h : l.length = n then some ⟨l, h⟩ else none)
    (fun l => by simp [l.property])

/-- UTF-8 text behind its byte length; invalid UTF-8 does not read. -/
def text : Wire String :=
  bytes.map (fun s => s.toByteArray.data.toList)
    (fun l => String.fromUTF8? ⟨l.toArray⟩)
    (fun s => dif_pos s.isValidUTF8)

end Wire

end Artel
