import Artel.Lib.Wire

namespace Artel.Frames

open List

/-- One frame of an append-only file: a four-byte big-endian length, then the payload. -/
def frame (p : Bytes) : Bytes := toBeBytes 4 p.length ++ p

def frames (ps : List Bytes) : Bytes := ps.flatMap frame

/-- The complete frames at the front of a file, and how many bytes they take. -/
def scan (limit : ℕ) (file : Bytes) : List Bytes × ℕ :=
  if file.length < 4 then ([], 0)
  else if limit < fromBeBytes (file.take 4) then ([], 0)
  else if file.length - 4 < fromBeBytes (file.take 4) then ([], 0)
  else
    let len := fromBeBytes (file.take 4)
    let next := scan limit (file.drop (4 + len))
    ((file.drop 4).take len :: next.1, 4 + len + next.2)
termination_by file.length
decreasing_by simp only [length_drop]; omega

/-- Nothing at the front of `tail` is a complete frame. -/
def Torn (limit : ℕ) (tail : Bytes) : Prop := scan limit tail = ([], 0)

@[simp] theorem frame_length (p : Bytes) : (frame p).length = 4 + p.length := by
  simp [frame]

@[simp] theorem frames_nil : frames [] = [] := rfl

@[simp] theorem frames_append (ps qs : List Bytes) : frames (ps ++ qs) = frames ps ++ frames qs := by
  simp [frames]

@[simp] theorem frames_singleton (p : Bytes) : frames [p] = frame p := by
  simp [frames]

theorem torn_of_short (limit : ℕ) (tail : Bytes) (h : tail.length < 4) : Torn limit tail := by
  rw [Torn, scan, if_pos h]

theorem torn_nil (limit : ℕ) : Torn limit [] := torn_of_short limit [] (by simp)

theorem header_take (p rest : Bytes) (h : p.length < 256 ^ 4) :
    fromBeBytes ((frame p ++ rest).take 4) = p.length := by
  rw [frame, append_assoc, take_left' (toBeBytes_length 4 _)]
  exact fromBeBytes_toBeBytes 4 _ h

section

variable (limit : ℕ)
include limit

theorem scan_frame_append (p rest : Bytes) (hp : p.length ≤ limit)
    (hl : limit < 256 ^ 4) :
    scan limit (frame p ++ rest) =
      (p :: (scan limit rest).1, 4 + p.length + (scan limit rest).2) := by
  have hh := header_take p rest (by omega)
  have hlen : (frame p ++ rest).length = 4 + p.length + rest.length := by simp
  have hdrop : (frame p ++ rest).drop (4 + p.length) = rest :=
    drop_left' (frame_length p)
  have hpay : ((frame p ++ rest).drop 4).take p.length = p := by
    rw [frame, append_assoc, drop_left' (toBeBytes_length 4 _)]
    exact take_left' rfl
  rw [scan, hh, if_neg (by omega), if_neg (by omega), if_neg (by omega)]
  simp only [hdrop, hpay]

/-- Complete frames are read back in order, whatever torn bytes follow them. -/
theorem scan_frames_append (ps : List Bytes) (tail : Bytes)
    (hl : limit < 256 ^ 4) (hp : ∀ p ∈ ps, p.length ≤ limit) (ht : Torn limit tail) :
    scan limit (frames ps ++ tail) = (ps, (frames ps).length) := by
  induction ps with
  | nil => exact ht
  | cons p ps ih =>
    have hps : frames (p :: ps) = frame p ++ frames ps := rfl
    have hrest := ih (fun q hq => hp q (mem_cons_of_mem p hq))
    rw [hps, append_assoc, scan_frame_append limit p _ (hp p mem_cons_self) hl, hrest]
    simp

theorem scan_length_le (file : Bytes) :
    ∀ p ∈ (scan limit file).1, p.length ≤ limit := by
  fun_induction scan limit file with
  | case1 file h => simp
  | case2 file h hlimit => simp
  | case3 file h hlimit hshort => simp
  | case4 file h hlimit hshort len next ih =>
    intro p hp
    obtain rfl | hp := mem_cons.mp hp
    · rw [length_take]
      omega
    · exact ih p hp

/-- What the scanner accepts is a run of well-formed frames. -/
theorem take_scan (file : Bytes) :
    file.take (scan limit file).2 = frames (scan limit file).1 := by
  fun_induction scan limit file with
  | case1 file h => rfl
  | case2 file h hlimit => rfl
  | case3 file h hlimit hshort => rfl
  | case4 file h hlimit hshort len next ih =>
    -- the payload is as long as its header says, so framing it again gives the bytes back
    have hpay : ((file.drop 4).take len).length = len := by
      rw [length_take, length_drop]
      omega
    have hhead : toBeBytes 4 len = file.take 4 := by
      have h4 : (file.take 4).length = 4 := by
        rw [length_take]
        omega
      have hb := toBeBytes_fromBeBytes (file.take 4)
      rwa [h4] at hb
    have hcons : frames ((file.drop 4).take len :: next.1) =
        frame ((file.drop 4).take len) ++ frames next.1 := rfl
    rw [hcons, ← ih, frame, hpay, hhead, take_add, take_add]

theorem torn_drop_scan (file : Bytes) : Torn limit (file.drop (scan limit file).2) := by
  fun_induction scan limit file with
  | case1 file h => rw [Torn, drop_zero, scan, if_pos h]
  | case2 file h hlimit => rw [Torn, drop_zero, scan, if_neg h, if_pos hlimit]
  | case3 file h hlimit hshort =>
    rw [Torn, drop_zero, scan, if_neg h, if_neg hlimit, if_pos hshort]
  | case4 file h hlimit hshort len next ih => rwa [drop_drop] at ih

theorem torn_take_frame (p : Bytes) (k : ℕ) (hp : p.length < 256 ^ 4)
    (hk : k < 4 + p.length) : Torn limit ((frame p).take k) := by
  have hlen : ((frame p).take k).length = k := by
    rw [length_take, frame_length]
    omega
  -- cut inside the header, or behind it: then the header still announces the whole payload
  by_cases h4 : k < 4
  · exact torn_of_short limit _ (by omega)
  have hh : fromBeBytes (((frame p).take k).take 4) = p.length := by
    have h := header_take p [] hp
    rwa [append_nil, ← Nat.min_eq_left (Nat.le_of_not_lt h4), ← take_take] at h
  rw [Torn, scan, hh, hlen, if_neg h4]
  split
  · rfl
  · rw [if_pos (by omega)]

theorem torn_header_append (p rest : Bytes) (hp : p.length < 256 ^ 4)
    (hr : rest.length < p.length) : Torn limit ((frame p).take 4 ++ rest) := by
  have hhead : (frame p).take 4 = toBeBytes 4 p.length := take_left' (toBeBytes_length 4 _)
  have hh : fromBeBytes (((frame p).take 4 ++ rest).take 4) = p.length := by
    rw [hhead, take_left' (toBeBytes_length 4 _)]
    exact fromBeBytes_toBeBytes 4 _ hp
  have hlen : ((frame p).take 4 ++ rest).length = 4 + rest.length := by
    rw [hhead, length_append, toBeBytes_length]
  rw [Torn, scan, hh, hlen, if_neg (by omega)]
  split
  · rfl
  · rw [if_pos (by omega)]

end

/-- The file is these complete frames and then a torn rest. -/
structure Framed (limit : ℕ) (file : Bytes) (ps : List Bytes) (tail : Bytes) : Prop where
  eq_append : file = frames ps ++ tail
  length_le : ∀ p ∈ ps, p.length ≤ limit
  torn : Torn limit tail

/-- A cut keeps the frames that lie wholly before it, and of the next one torn bytes. -/
theorem framed_take {limit : ℕ} (hl : limit < 256 ^ 4) (ps : List Bytes) (cut : ℕ)
    (hp : ∀ p ∈ ps, p.length ≤ limit) :
    ∃ kept lost tail, ps = kept ++ lost ∧ Framed limit ((frames ps).take cut) kept tail ∧
      (frames kept).length ≤ cut ∧ ∀ p ∈ lost.head?, cut < (frames (kept ++ [p])).length := by
  induction ps generalizing cut with
  | nil => exact ⟨[], [], [], rfl, ⟨by simp, by simp, torn_nil limit⟩, Nat.zero_le _, by simp⟩
  | cons p ps ih =>
    have hcons : ∀ qs, frames (p :: qs) = frame p ++ frames qs := fun _ => rfl
    have hlen := hp p mem_cons_self
    rcases Nat.lt_or_ge cut (4 + p.length) with hcut | hcut
    · refine ⟨[], p :: ps, (frame p).take cut, rfl, ⟨?_, by simp, ?_⟩, Nat.zero_le _, by simp [hcut]⟩
      · rw [hcons, take_append_of_le_length (by simp; omega)]
        rfl
      · exact torn_take_frame limit p cut (by omega) hcut
    · obtain ⟨kept, lost, tail, rfl, hf, hle, hlt⟩ :=
        ih (cut - (4 + p.length)) fun q hq => hp q (mem_cons_of_mem p hq)
      refine ⟨p :: kept, lost, tail, rfl, ⟨?_, ?_, hf.torn⟩, ?_, fun q hq => ?_⟩
      · rw [hcons, take_append, frame_length, take_of_length_le (by simp [hcut]), hf.eq_append,
          hcons, append_assoc]
      · simpa using ⟨hlen, hf.length_le⟩
      · rw [hcons, length_append, frame_length]
        omega
      · have hq' := hlt q hq
        rw [cons_append, hcons, length_append, frame_length]
        omega

theorem framed_scan (limit : ℕ) (file : Bytes) :
    Framed limit file (scan limit file).1 (file.drop (scan limit file).2) where
  eq_append := by rw [← take_scan, take_append_drop]
  length_le := scan_length_le limit file
  torn := torn_drop_scan limit file

namespace Framed

variable {limit : ℕ} {file : Bytes} {ps : List Bytes} {tail : Bytes}

theorem nil (limit : ℕ) : Framed limit [] [] [] := ⟨rfl, by simp, torn_nil limit⟩

theorem scan_eq (h : Framed limit file ps tail) (hl : limit < 256 ^ 4) :
    scan limit file = (ps, (frames ps).length) := by
  rw [h.eq_append]
  exact scan_frames_append limit ps tail hl h.length_le h.torn

theorem scan_eq_length (h : Framed limit file ps []) (hl : limit < 256 ^ 4) :
    (scan limit file).2 = file.length := by
  rw [h.scan_eq hl, h.eq_append, append_nil]

theorem truncate (h : Framed limit file ps tail) : Framed limit (frames ps) ps [] :=
  ⟨(append_nil _).symm, h.length_le, torn_nil limit⟩

theorem append (h : Framed limit file ps []) (p : Bytes) (hp : p.length ≤ limit) :
    Framed limit (file ++ frame p) (ps ++ [p]) [] where
  eq_append := by rw [h.eq_append]; simp
  length_le q hq := by
    obtain hq | hq := mem_append.mp hq
    · exact h.length_le q hq
    · rwa [mem_singleton.mp hq]
  torn := torn_nil limit

theorem append_take (h : Framed limit file ps []) (p : Bytes) (k : ℕ) (hp : p.length ≤ limit)
    (hl : limit < 256 ^ 4) :
    (∃ rest, Framed limit (file ++ (frame p).take k) ps rest) ∨
      Framed limit (file ++ (frame p).take k) (ps ++ [p]) [] := by
  by_cases hk : k < 4 + p.length
  · left
    refine ⟨(frame p).take k, ?_, h.length_le, torn_take_frame limit p k (by omega) hk⟩
    rw [h.eq_append, append_nil]
  · right
    rw [take_of_length_le (by rw [frame_length]; omega)]
    exact h.append p hp

end Framed

end Artel.Frames
