import Artel.Lib.View
import Artel.Bridge.SendRemote

namespace Artel.Bridge

open Function List

variable {ed : Ed25519} (hostOf : SessionId → PeerId)

/-- The host of the session has signed this verdict for this request. -/
def Signed (s : State) (session : SessionId) (reqId : Uuid) (result : Verdict) : Prop :=
  (hostOf session, Signing.ackCanonicalBytes session reqId result) ∈ s.signed

/-- A call's own request has this verdict from the host of the session it was sent to. -/
def Answered (s : State) (i : ℕ) (result : Verdict) : Prop :=
  ∃ r ∈ s.requests, r.call = i ∧ Signed hostOf s r.session r.reqId result

/-- No signature verifies that its key has not made. -/
def Unforged (ed : Ed25519) : Label → State → Prop
  | .verify topic reqId result hostSig, s =>
    Signing.verifyAck ed (hostOf topic) topic reqId result hostSig = .ok () →
      Signed hostOf s topic reqId result
  | _, _ => True

/-- An ack that verified on a topic meets a pending request of that topic's session only. -/
def OnOwnTopic : Label → State → Prop
  | .takePending topic reqId, s =>
    ∀ r ∈ s.requests, r.reqId = reqId → s.pendingSends reqId = some r.call → r.session = topic
  | _, _ => True

instance (l : Label) (s : State) : Decidable (Unforged hostOf ed l s) := by
  unfold Unforged Signed
  split <;> infer_instance

instance (l : Label) (s : State) : Decidable (OnOwnTopic l s) := by
  unfold OnOwnTopic
  split <;> infer_instance

def Sound (ed : Ed25519) (l : Label) (_ : Env) (s : State) : Prop :=
  Unforged hostOf ed l s ∧ OnOwnTopic l s

instance (l : Label) (e : Env) (s : State) : Decidable (Sound hostOf ed l e s) :=
  inferInstanceAs (Decidable (_ ∧ _))

/-- How far a call is: a send with its request or verdict, or an ack. -/
inductive View
  | idle
  | waiting (session : SessionId) (reqId : Uuid)
  | answered (session : SessionId) (reqId : Uuid) (result : Verdict)
  | verified (topic : SessionId) (reqId : Uuid) (result : Verdict)
  | holding (i : ℕ) (result : Verdict)
  | delivered

def Knows (s : State) (i : ℕ) : View → Prop
  | .idle => ∀ r ∈ s.requests, r.call ≠ i
  | .waiting session reqId => ⟨i, session, reqId⟩ ∈ s.requests
  | .answered session reqId result =>
    ⟨i, session, reqId⟩ ∈ s.requests ∧ Signed hostOf s session reqId result
  | .verified topic reqId result => Signed hostOf s topic reqId result
  | .holding j result =>
    Answered hostOf s j result ∧ j ∉ s.resolved ∧ ∀ reqId, s.pendingSends reqId ≠ some j
  | .delivered => True

structure Inv (s : State) (V : ℕ → View) : Prop where
  knows : ∀ i, Knows hostOf s i (V i)
  /-- A call draws one id. -/
  drawn : ∀ q ∈ s.requests, ∀ r ∈ s.requests, q.call = r.call → q = r
  pending : ∀ reqId i, s.pendingSends reqId = some i →
    i ∉ s.resolved ∧ ∃ r ∈ s.requests, r.call = i ∧ r.reqId = reqId
  holders : ∀ i j k result result', V i = .holding k result → V j = .holding k result' → i = j
  replies : ∀ i result, s.replies i = some result → Answered hostOf s i result
  resolved : ∀ i ∈ s.resolved, ∃ r ∈ s.requests, r.call = i
  once : s.resolved.Nodup

variable {hostOf} {s : State} {i : ℕ} {result : Verdict}

theorem Answered.mono {s' : State} (h : Answered hostOf s i result)
    (hreq : ∀ r ∈ s.requests, r ∈ s'.requests) (hsigned : ∀ x ∈ s.signed, x ∈ s'.signed) :
    Answered hostOf s' i result := by
  obtain ⟨r, hr, hi, hs⟩ := h
  exact ⟨r, hreq r hr, hi, hsigned _ hs⟩

variable {V : ℕ → View}

theorem Inv.frame {s' : State} (hI : Inv hostOf s V)
    (hpending : s'.pendingSends = s.pendingSends) (hreplies : s'.replies = s.replies)
    (hrequests : s'.requests = s.requests) (hresolved : s'.resolved = s.resolved)
    (hsigned : ∀ x ∈ s.signed, x ∈ s'.signed) : Inv hostOf s' V := by
  have hanswered : ∀ i result, Answered hostOf s i result → Answered hostOf s' i result := by
    intro i result h
    exact h.mono (by rw [hrequests]; exact fun _ hr => hr) hsigned
  refine { knows := ?_, drawn := ?_, pending := ?_, holders := hI.holders, replies := ?_,
           resolved := ?_, once := ?_ }
  · intro i
    have hk := hI.knows i
    cases hv : V i with
    | idle => rw [hv] at hk; rw [Knows, hrequests]; exact hk
    | waiting session reqId => rw [hv] at hk; rw [Knows, hrequests]; exact hk
    | answered session reqId result =>
      rw [hv] at hk
      rw [Knows, hrequests]
      exact ⟨hk.1, hsigned _ hk.2⟩
    | verified topic reqId result => rw [hv] at hk; exact hsigned _ hk
    | holding j result =>
      rw [hv] at hk
      rw [Knows, hresolved, hpending]
      exact ⟨hanswered j result hk.1, hk.2⟩
    | delivered => trivial
  · rw [hrequests]; exact hI.drawn
  · rw [hpending, hrequests, hresolved]; exact hI.pending
  · rw [hreplies]; exact fun i result h => hanswered i result (hI.replies i result h)
  · rw [hrequests, hresolved]; exact hI.resolved
  · rw [hresolved]; exact hI.once

theorem holding_of_update {j k : ℕ} {w : View}
    (hnot : ∀ k result, w ≠ .holding k result)
    (h : update V i w j = .holding k result) : V j = .holding k result := by
  by_cases hji : j = i
  · subst hji
    rw [update_self] at h
    exact absurd h (hnot k result)
  · rwa [update_of_ne hji] at h

theorem Inv.setView (hI : Inv hostOf s V) (i : ℕ) (w : View)
    (hw : Knows hostOf s i w) (hnot : ∀ k result, w ≠ .holding k result) :
    Inv hostOf s (update V i w) := by
  refine { hI with knows := ?_, holders := ?_ }
  · exact (forall_update_iff V (Knows hostOf s)).mpr ⟨hw, fun j _ => hI.knows j⟩
  · intro j j' k result result' hj hj'
    exact hI.holders j j' k result result' (holding_of_update hnot hj) (holding_of_update hnot hj')

theorem Inv.insertPending (hI : Inv hostOf s V)
    (hv : V i = .idle) (session : SessionId) (reqId : Uuid) :
    Inv hostOf { s with
        pendingSends := update s.pendingSends reqId (some i)
        requests := s.requests ++ [⟨i, session, reqId⟩] }
      (update V i (.waiting session reqId)) := by
  have hfresh : ∀ r ∈ s.requests, r.call ≠ i := by
    have hk := hI.knows i
    rwa [hv] at hk
  have hunresolved : i ∉ s.resolved := by
    intro hi
    obtain ⟨r, hr, hcall⟩ := hI.resolved i hi
    exact hfresh r hr hcall
  have hmem : ∀ r ∈ s.requests, r ∈ s.requests ++ [⟨i, session, reqId⟩] := fun r hr =>
    mem_append_left _ hr
  have hnot : ∀ k result, View.waiting session reqId ≠ .holding k result := by
    intro k result h
    cases h
  refine { knows := ?_, drawn := ?_, pending := ?_, holders := ?_, replies := ?_,
           resolved := ?_, once := hI.once }
  · rw [forall_update_iff V (Knows hostOf _)]
    refine ⟨mem_append_right _ (mem_singleton.mpr rfl), fun j hj => ?_⟩
    have hk := hI.knows j
    cases hvj : V j with
    | idle =>
      rw [hvj] at hk
      intro r hr
      rcases mem_append.mp hr with hr | hr
      · exact hk r hr
      · rw [mem_singleton.mp hr]
        exact Ne.symm hj
    | waiting session' reqId' => rw [hvj] at hk; exact hmem _ hk
    | answered session' reqId' result => rw [hvj] at hk; exact ⟨hmem _ hk.1, hk.2⟩
    | verified topic reqId' result => rw [hvj] at hk; exact hk
    | holding k result =>
      rw [hvj] at hk
      obtain ⟨hanswered, hopen, hgone⟩ := hk
      refine ⟨hanswered.mono hmem fun _ hx => hx, hopen, fun q hq => ?_⟩
      simp only [update_apply] at hq
      split at hq
      · -- the sender that is held belongs to a call with a request, the new one had none
        cases hq
        obtain ⟨r, hr, hcall, -⟩ := hanswered
        exact hfresh r hr hcall
      · exact hgone q hq
    | delivered => trivial
  · intro q hq r hr hcall
    rcases mem_append.mp hq with hq | hq <;> rcases mem_append.mp hr with hr | hr
    · exact hI.drawn q hq r hr hcall
    · rw [mem_singleton.mp hr] at hcall
      exact absurd hcall (hfresh q hq)
    · rw [mem_singleton.mp hq] at hcall
      exact absurd hcall.symm (hfresh r hr)
    · rw [mem_singleton.mp hq, mem_singleton.mp hr]
  · intro q j hq
    simp only [update_apply] at hq
    split at hq
    · rename_i hqr
      cases hq
      exact ⟨hunresolved, _, mem_append_right _ (mem_singleton.mpr rfl), rfl, hqr.symm⟩
    · obtain ⟨hopen, r, hr, hcall⟩ := hI.pending q j hq
      exact ⟨hopen, r, hmem r hr, hcall⟩
  · intro j j' k result result' hj hj'
    exact hI.holders j j' k result result' (holding_of_update hnot hj) (holding_of_update hnot hj')
  · exact fun j result hj => (hI.replies j result hj).mono hmem fun _ hx => hx
  · intro j hj
    obtain ⟨r, hr, hcall⟩ := hI.resolved j hj
    exact ⟨r, hmem r hr, hcall⟩

theorem pending_of_removed {reqId q : Uuid}
    (h : update s.pendingSends reqId none q = some i) :
    q ≠ reqId ∧ s.pendingSends q = some i := by
  by_cases hq : q = reqId
  · subst hq
    rw [update_self] at h
    cases h
  · rw [update_of_ne hq] at h
    exact ⟨hq, h⟩

theorem Inv.removePending (hI : Inv hostOf s V) (reqId : Uuid) :
    Inv hostOf { s with pendingSends := update s.pendingSends reqId none } V := by
  refine { hI with knows := fun i => ?_, pending := fun q i h => ?_ }
  · have hk := hI.knows i
    cases hv : V i with
    | holding j result =>
      rw [hv] at hk
      exact ⟨hk.1, hk.2.1, fun q hq => hk.2.2 q (pending_of_removed hq).2⟩
    | _ => rw [hv] at hk; exact hk
  · exact hI.pending q i (pending_of_removed h).2

theorem Inv.takePending (hI : Inv hostOf s V) {k : ℕ}
    {topic : SessionId} {reqId : Uuid} (hv : V i = .verified topic reqId result)
    (hk : s.pendingSends reqId = some k) (hown : OnOwnTopic (.takePending topic reqId) s) :
    Inv hostOf { s with pendingSends := update s.pendingSends reqId none }
      (update V i (.holding k result)) := by
  have hsigned : Signed hostOf s topic reqId result := by
    have h := hI.knows i
    rwa [hv] at h
  obtain ⟨hopen, r, hr, hcall, hreq⟩ := hI.pending reqId k hk
  -- the guard: the ack was verified for the session that the request went to
  have htopic : r.session = topic := hown r hr hreq (by rw [hk, hcall])
  have hremoved := hI.removePending reqId
  have hholding : ∀ j result', V j ≠ .holding k result' := by
    intro j result' hj
    have h := hI.knows j
    rw [hj] at h
    exact h.2.2 reqId hk
  refine { hremoved with knows := ?_, holders := ?_ }
  · rw [forall_update_iff V (Knows hostOf _)]
    refine ⟨⟨⟨r, hr, hcall, ?_⟩, hopen, fun q hq => ?_⟩, fun j _ => hremoved.knows j⟩
    · rw [htopic, hreq]
      exact hsigned
    · -- one call has one request, so it was pending under no other id
      obtain ⟨hne, hq⟩ := pending_of_removed hq
      obtain ⟨-, r', hr', hcall', hreq'⟩ := hI.pending q k hq
      have hrr := hI.drawn r' hr' r hr (hcall'.trans hcall.symm)
      rw [hrr] at hreq'
      exact hne (hreq'.symm.trans hreq)
  · have hcase : ∀ j m result', update V i (.holding k result) j = .holding m result' →
        (j = i ∧ m = k) ∨ (m ≠ k ∧ V j = .holding m result') := by
      intro j m result' hj
      by_cases hji : j = i
      · subst hji
        rw [update_self] at hj
        cases hj
        exact .inl ⟨rfl, rfl⟩
      · rw [update_of_ne hji] at hj
        refine .inr ⟨?_, hj⟩
        rintro rfl
        exact hholding j result' hj
    intro j j' m result₁ result₂ hj hj'
    rcases hcase j m result₁ hj with ⟨hji, hm⟩ | ⟨hm, hj⟩ <;>
      rcases hcase j' m result₂ hj' with ⟨hji', hm'⟩ | ⟨hm', hj'⟩
    · rw [hji, hji']
    · exact absurd hm hm'
    · exact absurd hm' hm
    · exact hI.holders j j' m result₁ result₂ hj hj'

theorem Inv.resolve (hI : Inv hostOf s V) {k : ℕ}
    (hv : V i = .holding k result) :
    Inv hostOf { s with
        replies := update s.replies k (some result)
        resolved := s.resolved ++ [k] }
      (update V i .delivered) := by
  have hk := hI.knows i
  rw [hv] at hk
  obtain ⟨hanswered, hopen, hgone⟩ := hk
  refine { knows := ?_, drawn := hI.drawn, pending := ?_, holders := ?_, replies := ?_,
           resolved := ?_, once := ?_ }
  · rw [forall_update_iff V (Knows hostOf _)]
    refine ⟨trivial, fun j hj => ?_⟩
    have hkj := hI.knows j
    cases hvj : V j with
    | holding m result' =>
      rw [hvj] at hkj
      refine ⟨hkj.1, fun hm => ?_, hkj.2.2⟩
      rcases mem_append.mp hm with hm | hm
      · exact hkj.2.1 hm
      · rw [mem_singleton.mp hm] at hvj
        exact hj (hI.holders j i k result' result hvj hv)
    | _ => rw [hvj] at hkj; exact hkj
  · intro q j hq
    obtain ⟨hj, hr⟩ := hI.pending q j hq
    refine ⟨fun hmem => ?_, hr⟩
    rcases mem_append.mp hmem with hmem | hmem
    · exact hj hmem
    · rw [mem_singleton.mp hmem] at hq
      exact hgone q hq
  · exact (hI.setView i .delivered trivial fun _ _ h => by cases h).holders
  · intro j result' hj
    simp only [update_apply] at hj
    split at hj
    · rename_i hjk
      cases hj
      rw [hjk]
      exact hanswered
    · exact hI.replies j result' hj
  · intro j hj
    rcases mem_append.mp hj with hj | hj
    · exact hI.resolved j hj
    · obtain ⟨r, hr, hcall, -⟩ := hanswered
      rw [mem_singleton.mp hj]
      exact ⟨r, hr, hcall⟩
  · exact nodup_append.mpr ⟨hI.once, nodup_singleton k, by
      intro x hx y hy
      rw [mem_singleton.mp hy]
      rintro rfl
      exact hopen hx⟩

end Artel.Bridge
