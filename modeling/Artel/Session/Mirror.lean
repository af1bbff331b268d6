import Artel.Lib.Search
import Artel.Session.Session

namespace Artel

open Store List

variable (ed : Ed25519)

/-- Both signatures: the author's over the body, then the host's over the seq. -/
def verifyFrame (host : PeerId) (session : SessionId) (m : SessionMessage) :
    Except VerifyError Unit :=
  match Signing.verifyMessage ed session m m.signature with
  | .error e => .error e
  | .ok _ => Signing.verifySeq ed host session m.seq m.signature m.hostSig

/-- Dedup first, then the signatures: where the frame goes, or `none` if it is dropped. -/
def mirrorAccepts (s : Session) (m : SessionMessage) : Option ℕ :=
  let pos := partitionPoint (fun x => x.seq < m.seq) s.log
  if s.log[pos]?.any (fun x => x.seq = m.seq) then none
  else
    match verifyFrame ed s.host s.id m with
    | .error _ => none
    | .ok _ => some pos

/-- `Vec::insert` at the position found, and the head never lowered. -/
def mirrorInsert (s : Session) (pos : ℕ) (m : SessionMessage) : Session :=
  { s with
    log := s.log.take pos ++ m :: s.log.drop pos
    head := if s.head < m.seq then m.seq else s.head }

theorem verifyFrame_of_accepts {s : Session} {m : SessionMessage} {pos : ℕ}
    (h : mirrorAccepts ed s m = some pos) : verifyFrame ed s.host s.id m = .ok () := by
  unfold mirrorAccepts at h
  dsimp only at h
  split at h
  · cases h
  · split at h
    · cases h
    · rename_i hv
      exact hv

theorem any_getElem_iff {a b : List SessionMessage} {n : Seq}
    (hs : Ascending SessionMessage.seq (a ++ b)) (ha : ∀ x ∈ a, x.seq < n)
    (hb : ∀ x ∈ b, n ≤ x.seq) :
    ((a ++ b)[a.length]?.any fun x => x.seq = n) = true ↔
      n ∈ (a ++ b).map SessionMessage.seq := by
  constructor
  · intro h
    cases hx : (a ++ b)[a.length]? with
    | none => simp [hx] at h
    | some x =>
      have hseq : x.seq = n := by simpa [hx] using h
      exact mem_map.mpr ⟨x, mem_of_getElem? hx, hseq⟩
  · intro h
    obtain ⟨x, hx, rfl⟩ := mem_map.mp h
    obtain hx | hx := mem_append.mp hx
    · exact absurd (ha x hx) (lt_irrefl _)
    cases b with
    | nil => cases hx
    | cons y b =>
      obtain rfl | hx := mem_cons.mp hx
      · simp
      -- behind the first element of `b` every seq is above that element's, and so above `n`
      · obtain ⟨-, hb', -⟩ := pairwise_append.mp hs
        have hlt := (pairwise_cons.mp hb').1 x hx
        exact absurd (hb y mem_cons_self) (not_le.mpr hlt)

/-- Accepted exactly if the seq is new and both signatures verify. -/
theorem mirrorAccepts_of_ascending (s : Session) (m : SessionMessage)
    (hs : Ascending SessionMessage.seq s.log) :
    ∃ a b, s.log = a ++ b ∧ (∀ x ∈ a, x.seq < m.seq) ∧ (∀ x ∈ b, m.seq ≤ x.seq) ∧
      mirrorAccepts ed s m =
        if m.seq ∈ s.log.map SessionMessage.seq then none
        else
          match verifyFrame ed s.host s.id m with
          | .error _ => none
          | .ok _ => some a.length := by
  obtain ⟨a, b, heq, ha, hb⟩ := hs.split _ m.seq
  refine ⟨a, b, heq, ha, hb, ?_⟩
  have hpos : partitionPoint (fun x => x.seq < m.seq) s.log = a.length := by
    rw [heq]
    exact partitionPoint_eq _ a b (by simpa using ha) (by simpa using hb)
  have hdup : (s.log[a.length]?.any fun x => x.seq = m.seq) = true ↔
      m.seq ∈ s.log.map SessionMessage.seq := by
    rw [heq] at hs ⊢
    exact any_getElem_iff hs ha hb
  unfold mirrorAccepts
  simp only [hpos, hdup]

theorem mirrorAccepts_eq_none_of_mem (s : Session) (m : SessionMessage)
    (hs : Ascending SessionMessage.seq s.log) (h : m.seq ∈ s.log.map SessionMessage.seq) :
    mirrorAccepts ed s m = none := by
  obtain ⟨a, b, -, -, -, hacc⟩ := mirrorAccepts_of_ascending ed s m hs
  rw [hacc, if_pos h]

theorem mirrorInsert_of_accepts (s : Session) (m : SessionMessage) (pos : ℕ)
    (hs : Ascending SessionMessage.seq s.log) (h : mirrorAccepts ed s m = some pos) :
    Ascending SessionMessage.seq (mirrorInsert s pos m).log ∧
      (mirrorInsert s pos m).log.Perm (s.log ++ [m]) ∧
      verifyFrame ed s.host s.id m = .ok () := by
  obtain ⟨a, b, heq, ha, hb, hacc⟩ := mirrorAccepts_of_ascending ed s m hs
  rw [hacc] at h
  split at h
  · cases h
  rename_i hnew
  split at h
  · cases h
  rename_i u hv
  cases h
  have hlt : ∀ x ∈ b, m.seq < x.seq := by
    intro x hx
    refine lt_of_le_of_ne (hb x hx) fun hne => hnew ?_
    rw [heq, hne]
    exact mem_map_of_mem (mem_append_right a hx)
  have hlog : (mirrorInsert s a.length m).log = a ++ m :: b := by
    simp [mirrorInsert, heq]
  rw [hlog]
  refine ⟨?_, ?_, hv⟩
  · rw [heq] at hs
    exact hs.insert _ ha hlt
  · rw [heq]
    exact perm_middle.trans (perm_append_singleton m (a ++ b)).symm

structure Mirror where
  session : Session
  emitted : List SessionMessage

/-- One frame; a reserved action stays in the log and is not surfaced. -/
def applyInboundMirrorMessage (appended : Except IoError Unit) (r : Mirror) (m : SessionMessage) :
    Mirror :=
  match mirrorAccepts ed r.session m with
  | none => r
  | some pos =>
    match appended with
    | .error _ => r
    | .ok _ => ⟨mirrorInsert r.session pos m, if isReserved m then r.emitted else r.emitted ++ [m]⟩

/-- The frames that a mirror was given are in its log if they verify. -/
structure Mirrors (s : Session) (frames : List SessionMessage) (r : Mirror) : Prop where
  same : r.session = { s with log := r.session.log, head := r.session.head }
  ascending : Ascending SessionMessage.seq r.session.log
  mem : ∀ m, m ∈ r.session.log ↔ m ∈ frames ∧ verifyFrame ed s.host s.id m = .ok ()
  le_head : ∀ m ∈ r.session.log, m.seq ≤ r.session.head
  head : r.session.head = Seq.ZERO ∨ ∃ m ∈ r.session.log, m.seq = r.session.head
  emitted : r.emitted.Perm (r.session.log.filter fun m => !isReserved m)

section Order

variable {ed} {s : Session} {frames : List SessionMessage} {r : Mirror} {m : SessionMessage}

theorem Mirrors.drop (h : Mirrors ed s frames r)
    (hm : verifyFrame ed s.host s.id m = .ok () → m ∈ r.session.log) :
    Mirrors ed s (frames ++ [m]) r := by
  refine { h with mem := fun x => ?_ }
  rw [h.mem, mem_append, mem_singleton]
  refine ⟨fun hx => ⟨.inl hx.1, hx.2⟩, fun ⟨hx, hv⟩ => ?_⟩
  rcases hx with hx | rfl
  · exact ⟨hx, hv⟩
  · exact (h.mem x).mp (hm hv)

theorem Mirrors.insert (h : Mirrors ed s frames r) {pos : ℕ}
    (hpos : mirrorAccepts ed r.session m = some pos) :
    Mirrors ed s (frames ++ [m])
      ⟨mirrorInsert r.session pos m, if isReserved m then r.emitted else r.emitted ++ [m]⟩ := by
  obtain ⟨hasc, hperm, hv⟩ := mirrorInsert_of_accepts ed r.session m pos h.ascending hpos
  have hmem : ∀ x, x ∈ (mirrorInsert r.session pos m).log ↔ x ∈ r.session.log ∨ x = m := by
    simpa using fun x => hperm.mem_iff (a := x)
  have hhost : r.session.host = s.host ∧ r.session.id = s.id := by
    rw [h.same]
    exact ⟨rfl, rfl⟩
  have hhead : (mirrorInsert r.session pos m).head = max r.session.head m.seq := by
    rw [max_def_lt]
    rfl
  refine ⟨?_, hasc, fun x => ?_, fun x hx => ?_, ?_, ?_⟩
  · dsimp only [mirrorInsert]
    rw [h.same]
  · rw [hmem, h.mem, mem_append, mem_singleton]
    rw [hhost.1, hhost.2] at hv
    constructor
    · rintro (hx | rfl)
      · exact ⟨.inl hx.1, hx.2⟩
      · exact ⟨.inr rfl, hv⟩
    · exact fun hx => hx.1.imp (fun hin => ⟨hin, hx.2⟩) id
  · rw [hhead]
    rcases (hmem x).mp hx with hx | rfl
    · exact le_max_of_le_left (h.le_head x hx)
    · exact le_max_right ..
  · rw [hhead]
    rcases max_choice r.session.head m.seq with heq | heq <;> rw [heq]
    · exact h.head.imp id fun ⟨x, hx, hseq⟩ => ⟨x, (hmem x).mpr (.inl hx), hseq⟩
    · exact .inr ⟨m, (hmem m).mpr (.inr rfl), rfl⟩
  · refine .trans ?_ (hperm.filter _).symm
    rw [filter_append]
    cases hres : isReserved m with
    | true => simpa [hres] using h.emitted
    | false => simpa [hres] using h.emitted.append_right [m]

theorem Mirrors.step (h : Mirrors ed s frames r)
    (hone : ∀ x ∈ frames, x.seq = m.seq → verifyFrame ed s.host s.id x = .ok () →
      verifyFrame ed s.host s.id m = .ok () → x = m) :
    Mirrors ed s (frames ++ [m]) (applyInboundMirrorMessage ed (.ok ()) r m) := by
  obtain ⟨a, b, -, -, -, hacc⟩ := mirrorAccepts_of_ascending ed r.session m h.ascending
  unfold applyInboundMirrorMessage
  cases hpos : mirrorAccepts ed r.session m with
  | some pos => exact h.insert hpos
  | none =>
    -- its seq is taken, then by the frame itself, or it does not verify
    refine h.drop fun hv => ?_
    rw [hpos] at hacc
    split at hacc
    · rename_i hseq
      obtain ⟨x, hx, hseq⟩ := mem_map.mp hseq
      obtain ⟨hin, hvx⟩ := (h.mem x).mp hx
      exact hone x hin hseq hvx hv ▸ hx
    · have hsame : verifyFrame ed r.session.host r.session.id m = .ok () := by
        rw [h.same]
        exact hv
      rw [hsame] at hacc
      cases hacc

theorem mirrors_foldl (hlog : s.log = []) (hhead : s.head = Seq.ZERO)
    (hone : ∀ x ∈ frames, ∀ y ∈ frames, x.seq = y.seq → verifyFrame ed s.host s.id x = .ok () →
      verifyFrame ed s.host s.id y = .ok () → x = y) :
    Mirrors ed s frames (frames.foldl (applyInboundMirrorMessage ed (.ok ())) ⟨s, []⟩) := by
  induction frames using reverseRecOn with
  | nil =>
    refine ⟨rfl, ?_, ?_, ?_, .inl hhead, ?_⟩
    · rw [foldl_nil, hlog]
      exact Pairwise.nil
    · simp [hlog]
    · simp [hlog]
    · simp [hlog]
  | append_singleton frames m ih =>
    rw [foldl_append]
    refine (ih fun x hx y hy => hone x ?_ y ?_).step fun x hx => hone x ?_ m ?_
    · exact mem_append_left _ hx
    · exact mem_append_left _ hy
    · exact mem_append_left _ hx
    · exact mem_append_right _ (mem_singleton_self m)

theorem Mirrors.session_eq {frames' : List SessionMessage} {r' : Mirror} (h : Mirrors ed s frames r)
    (h' : Mirrors ed s frames' r') (hsame : ∀ m, m ∈ frames ↔ m ∈ frames') :
    r.session = r'.session := by
  have hlog : r.session.log = r'.session.log := by
    refine h.ascending.eq_of_perm _ h'.ascending ?_
    rw [perm_ext_iff_of_nodup (h.ascending.nodup_map _).of_map (h'.ascending.nodup_map _).of_map]
    intro m
    rw [h.mem, h'.mem, hsame]
  have hle : ∀ {q q' : Mirror} {l l'}, Mirrors ed s l q → Mirrors ed s l' q' →
      q.session.log = q'.session.log → q.session.head ≤ q'.session.head := by
    intro q q' l l' hq hq' heq
    rcases hq.head with hzero | ⟨m, hm, hseq⟩
    · rw [hzero]
      exact Seq.zero_le _
    · exact hseq ▸ hq'.le_head m (heq ▸ hm)
  rw [h.same, h'.same, hlog, le_antisymm (hle h h' hlog) (hle h' h hlog.symm)]

/-- Whatever the order and the repeats, a mirror ends with the frames that verify. -/
theorem inbound_order_independent (hlog : s.log = []) (hhead : s.head = Seq.ZERO)
    {frames' : List SessionMessage} (hsame : ∀ m, m ∈ frames ↔ m ∈ frames')
    (hone : ∀ x ∈ frames, ∀ y ∈ frames, x.seq = y.seq → verifyFrame ed s.host s.id x = .ok () →
      verifyFrame ed s.host s.id y = .ok () → x = y) :
    let r := frames.foldl (applyInboundMirrorMessage ed (.ok ())) ⟨s, []⟩
    r.session = (frames'.foldl (applyInboundMirrorMessage ed (.ok ())) ⟨s, []⟩).session ∧
      Ascending SessionMessage.seq r.session.log ∧
      (∀ m, m ∈ r.session.log ↔ m ∈ frames ∧ verifyFrame ed s.host s.id m = .ok ()) ∧
      r.emitted.Perm (r.session.log.filter fun m => !isReserved m) := by
  have h := mirrors_foldl hlog hhead hone
  have hone' := mirrors_foldl hlog hhead fun x hx y hy =>
    hone x ((hsame x).mpr hx) y ((hsame y).mpr hy)
  exact ⟨h.session_eq hone' hsame, h.ascending, h.mem, h.emitted⟩

theorem inbound_order_independent_twice :
    let run := List.foldl (applyInboundMirrorMessage .checksum (.ok ()))
      ⟨Session.new Sample.session (Sample.peer 0) .Remote, []⟩
    let a := Sample.message 1 1 .chat "" []
    let b := Sample.message 1 2 .chat "" []
    (run [a, b, a]).session = (run [b, a]).session := by
  refine (inbound_order_independent rfl rfl (by simp [or_comm]) ?_).1
  simp only [mem_cons, not_mem_nil, or_false]
  rintro _ (rfl | rfl | rfl) _ (rfl | rfl | rfl) hseq - - <;>
    first | rfl | exact absurd hseq (by decide)

end Order

end Artel
