import Artel.Registry.Subscriber

namespace Artel.GapRecovery

open List

open Function (forall_update_iff update_of_ne update_self)

open Registry Fanout

def surface (log : List SessionMessage) : List SessionMessage :=
  log.filter fun m => isReserved m = false

theorem surface_append (l r : List SessionMessage) : surface (l ++ r) = surface l ++ surface r :=
  filter_append ..

variable {m : SessionMessage}

theorem mem_surface {log : List SessionMessage} :
    m ∈ surface log ↔ m ∈ log ∧ isReserved m = false := by
  simp [surface]

/-- What a call does for the client: a request, or a snapshot with its place. -/
inductive Task
  | nothing
  | asked (since : Option Seq)
  | listening (since : Option Seq) (session : Session) (start : ℕ)

/-- The session held, the message owed, and what is done for the client. -/
structure View where
  held : Option Session
  owes : Option SessionMessage
  task : Task

def View.idle : View := ⟨none, none, .nothing⟩

/-- A message that the client has, or that it is given whatever else the channel loses. -/
inductive Secured (c : Client) (V : ℕ → View) (m : SessionMessage) : Prop
  | seen (h : m ∈ c.seen)
  | sent (h : .event (.message m) ∈ c.wire)
  | replayed (f : Forwarder) (hf : c.forwarders[0]? = some f) (h : m ∈ f.replay)
  | requested (since : Option Seq) (hs : since ∈ c.requests) (h : since.getD Seq.ZERO < m.seq)
  | asked (i : ℕ) (since : Option Seq) (hi : (V i).task = .asked since)
      (h : since.getD Seq.ZERO < m.seq)
  | listening (i : ℕ) (since : Option Seq) (session : Session) (start : ℕ)
      (hi : (V i).task = .listening since session start) (h : m ∈ replay session since)
  | gap (before after : List Frame) (hw : c.wire = before ++ .gap :: after)
      (hs : ∀ k ∈ c.seen, k.seq < m.seq)
      (hb : ∀ k, .event (.message k) ∈ before → k.seq < m.seq)

/-- A forwarder has passed on or lost no more than what is up to the mark. -/
structure Placed (log₀ : List SessionMessage) (feed : List Event) (mark : Seq) (f : Forwarder) :
    Prop where
  handle : f.handle = 0
  next : f.next ≤ feed.length
  replay : ∀ k ∈ f.replay, k.seq ≤ mark
  passed : ∀ k ∈ surface log₀ ++ messages (feed.take f.next), k.seq ≤ mark

def Reached (c : Client) (since : Option Seq) : Prop :=
  since.getD Seq.ZERO ≤ c.since.getD Seq.ZERO ∨ ∃ k ∈ c.seen, since.getD Seq.ZERO ≤ k.seq

/-- Up to the mark every message is secured, and nothing beyond it was sent to the client. -/
structure Covered (log₀ log : List SessionMessage) (feed : List Event) (c : Client) (V : ℕ → View)
    (mark : Seq) : Prop where
  due : ∀ m ∈ surface log, c.since.getD Seq.ZERO < m.seq → m.seq ≤ mark → Secured c V m
  top : mark = Seq.ZERO ∨ ∃ k ∈ surface log, mark ≤ k.seq
  seen : ∀ k ∈ c.seen, k.seq ≤ mark
  wire : ∀ k, .event (.message k) ∈ c.wire → k.seq ≤ mark
  forwarders : ∀ f ∈ c.forwarders, Placed log₀ feed mark f
  requests : ∀ since ∈ c.requests, Reached c since

theorem exists_mark (mark : Seq) (l : List SessionMessage) :
    ∃ mark', mark ≤ mark' ∧ (∀ k ∈ l, k.seq ≤ mark') ∧ (mark' = mark ∨ ∃ k ∈ l, mark' = k.seq) := by
  induction l with
  | nil => exact ⟨mark, le_refl _, by simp, .inl rfl⟩
  | cons m l ih =>
    obtain ⟨b, hle, hall, hb⟩ := ih
    rcases le_total m.seq b with hm | hm
    · refine ⟨b, hle, ?_, ?_⟩
      · simpa using ⟨hm, hall⟩
      · exact hb.imp id fun ⟨k, hk, heq⟩ => ⟨k, mem_cons_of_mem _ hk, heq⟩
    · refine ⟨m.seq, le_trans hle hm, ?_, .inr ⟨m, mem_cons_self, rfl⟩⟩
      simpa using fun k hk => le_trans (hall k hk) hm

section Client

variable {log₀ log : List SessionMessage} {feed : List Event} {c : Client} {V : ℕ → View}
  {mark mark' : Seq}

variable {f : Forwarder}

theorem Placed.mono (h : Placed log₀ feed mark f) (hle : mark ≤ mark') :
    Placed log₀ feed mark' f where
  handle := h.handle
  next := h.next
  replay k hk := le_trans (h.replay k hk) hle
  passed k hk := le_trans (h.passed k hk) hle

theorem Placed.emit (h : Placed log₀ feed mark f) (e : Event) :
    Placed log₀ (feed ++ [e]) mark f where
  handle := h.handle
  next := by
    rw [length_append]
    exact Nat.le_add_right_of_le h.next
  replay := h.replay
  passed := by
    rw [take_append_of_le_length h.next]
    exact h.passed

section

variable (hc : Covered log₀ log feed c V mark)
include hc

theorem Covered.lt_of_above
    (hm : ∀ k ∈ surface log, k.seq < m.seq) : mark = Seq.ZERO ∨ mark < m.seq :=
  hc.top.imp id fun ⟨k, hk, hle⟩ => lt_of_le_of_lt hle (hm k hk)

theorem Covered.commit {log' : List SessionMessage}
    (hlog : surface log' = surface log ++ [m]) (hm : ∀ k ∈ surface log, k.seq < m.seq) :
    Covered log₀ log' feed c V mark := by
  refine { hc with due := fun k hk hsince hle => ?_, top := ?_ }
  · rw [hlog] at hk
    rcases mem_append.mp hk with hk | hk
    · exact hc.due k hk hsince hle
    · rw [mem_singleton.mp hk] at hle hsince
      rcases hc.lt_of_above hm with hzero | hlt
      · rw [hzero] at hle
        exact absurd (lt_of_lt_of_le hsince hle) (not_lt.mpr (Seq.zero_le _))
      · exact absurd hle (not_le.mpr hlt)
  · exact hc.top.imp id fun ⟨k, hk, hle⟩ => ⟨k, hlog ▸ mem_append_left _ hk, hle⟩

theorem Covered.emit (e : Event) :
    Covered log₀ log (feed ++ [e]) c V mark :=
  { hc with forwarders := fun f hf => (hc.forwarders f hf).emit e }

theorem Covered.views {V' : ℕ → View}
    (hV : ∀ m ∈ surface log, Secured c V m → Secured c V' m) : Covered log₀ log feed c V' mark :=
  { hc with due := fun m hm hsince hle => hV m hm (hc.due m hm hsince hle) }

end

variable {v : View}

theorem Secured.update {i : ℕ} (h : Secured c V m)
    (hasked : ∀ since, (V i).task = .asked since → since.getD Seq.ZERO < m.seq →
      Secured c (Function.update V i v) m)
    (hlistening : ∀ since session start, (V i).task = .listening since session start →
      m ∈ replay session since → Secured c (Function.update V i v) m) :
    Secured c (Function.update V i v) m := by
  cases h with
  | asked j since hj h =>
    by_cases hji : j = i
    · exact hasked since (hji ▸ hj) h
    · refine .asked j since ?_ h
      rwa [update_of_ne hji]
  | listening j since session start hj h =>
    by_cases hji : j = i
    · exact hlistening since session start (hji ▸ hj) h
    · refine .listening j since session start ?_ h
      rwa [update_of_ne hji]
  | _ => solve_by_elim [Secured.seen, Secured.sent, Secured.replayed, Secured.requested, Secured.gap]

theorem Secured.same_task {i : ℕ} (h : Secured c V m) (hv : v.task = (V i).task) :
    Secured c (Function.update V i v) m := by
  apply h.update
  · intro since hi hlt
    refine .asked i since ?_ hlt
    rw [update_self, hv, hi]
  · intro since session start hi hm
    refine .listening i since session start ?_ hm
    rw [update_self, hv, hi]

/-- A frame more on the wire, and the forwarder that sent it moved on. -/
def pushed (c : Client) (k : ℕ) (frame : Frame) (f : Forwarder) : Client :=
  { c with wire := c.wire ++ [frame], forwarders := c.forwarders.set k f }

variable {frame : Frame}

theorem Secured.push (h : Secured c V m) {k : ℕ} {f' : Forwarder}
    (hk : c.forwarders[k]? = some f)
    (hf : m ∈ f.replay → m ∈ f'.replay ∨ frame = .event (.message m)) :
    Secured (pushed c k frame f') V m := by
  cases h with
  | sent h => exact .sent (mem_append_left _ h)
  | replayed g hg h =>
    by_cases hzero : k = 0
    · rw [hzero] at hk
      cases hk.symm.trans hg
      rcases hf h with hf | hf
      · refine .replayed f' ?_ hf
        have hlt : 0 < c.forwarders.length := (List.getElem?_eq_some_iff.mp hk).1
        rw [hzero]
        exact getElem?_set_self hlt
      · exact .sent (mem_append_right _ (mem_singleton.mpr hf.symm))
    · refine .replayed g ?_ h
      exact (getElem?_set_ne hzero).trans hg
  | gap before after hw hs hb =>
    refine .gap before (after ++ [frame]) ?_ hs hb
    rw [pushed, hw, append_assoc, cons_append]
  | _ => solve_by_elim [Secured.seen, Secured.requested, Secured.asked, Secured.listening]

theorem Covered.push (hc : Covered log₀ log feed c V mark) {k : ℕ} {f' : Forwarder}
    (hk : c.forwarders[k]? = some f)
    (hf : ∀ m ∈ f.replay, m ∈ f'.replay ∨ frame = .event (.message m)) (hle : mark ≤ mark')
    (htop : mark' = mark ∨ ∃ m ∈ surface log, mark' = m.seq)
    (hnew : ∀ m ∈ surface log, mark < m.seq → m.seq ≤ mark' → Secured (pushed c k frame f') V m)
    (hframe : ∀ m, frame = .event (.message m) → m.seq ≤ mark')
    (hplaced : Placed log₀ feed mark' f') :
    Covered log₀ log feed (pushed c k frame f') V mark' where
  due m hm hsince hmle := by
    rcases le_or_gt m.seq mark with hold | hgt
    · exact (hc.due m hm hsince hold).push hk (hf m)
    · exact hnew m hm hgt hmle
  top := by
    rcases htop with rfl | ⟨m, hm, hseq⟩
    · exact hc.top
    · exact .inr ⟨m, hm, le_of_eq hseq⟩
  seen m hm := le_trans (hc.seen m hm) hle
  wire m hm := by
    rcases mem_append.mp hm with hm | hm
    · exact le_trans (hc.wire m hm) hle
    · exact hframe m (mem_singleton.mp hm).symm
  forwarders g hg := by
    rcases mem_or_eq_of_mem_set hg with hg | rfl
    · exact (hc.forwarders g hg).mono hle
    · exact hplaced
  requests := hc.requests

theorem Covered.turn (hc : Covered log₀ log feed c V mark)
    (hasc : Ascending SessionMessage.seq (surface log)) {rest : List SessionMessage}
    (hlog : surface log = surface log₀ ++ messages feed ++ rest) {k : ℕ} {f' : Forwarder}
    (hk : c.forwarders[k]? = some f) (hturn : f.turn feed = some (frame, f')) :
    ∃ mark', Covered log₀ log feed (pushed c k frame f') V mark' := by
  have hplaced := hc.forwarders f (mem_of_getElem? hk)
  have hmem : ∀ n, ∀ m ∈ messages (feed.take n), m ∈ surface log := by
    intro n m hm
    rw [hlog, ← take_append_drop n feed, messages_append]
    simp only [mem_append, hm, true_or, or_true]
  unfold Forwarder.turn at hturn
  split at hturn
  · rename_i m replay hreplay
    cases hturn
    refine ⟨mark, hc.push hk ?_ (le_refl _) (.inl rfl) ?_ ?_ ?_⟩
    · intro m' hm'
      rw [hreplay] at hm'
      rcases mem_cons.mp hm' with rfl | hm'
      · exact .inr rfl
      · exact .inl hm'
    · exact fun m' _ hgt hle => absurd hle (not_le.mpr hgt)
    · rintro m' ⟨⟩
      exact hplaced.replay m (hreplay ▸ mem_cons_self)
    · refine ⟨hplaced.handle, hplaced.next, fun m' hm' => ?_, hplaced.passed⟩
      exact hplaced.replay m' (hreplay ▸ mem_cons_of_mem _ hm')
  · rename_i hreplay
    have hnone : ∀ m ∈ f.replay, m ∈ f'.replay ∨ frame = .event (.message m) := by
      rw [hreplay]
      exact nofun
    split at hturn
    · cases hturn
      refine ⟨mark, hc.push hk hnone (le_refl _) (.inl rfl) ?_ nofun ?_⟩
      · exact fun m' _ hgt hle => absurd hle (not_le.mpr hgt)
      · exact ⟨hplaced.handle, hplaced.next, hplaced.replay, hplaced.passed⟩
    split at hturn
    · cases hturn
      obtain ⟨mark', hle, hall, htop⟩ := exists_mark mark
        (messages (feed.take (feed.length - EVENT_CHANNEL_CAPACITY)))
      refine ⟨mark', hc.push hk hnone hle ?_ ?_ nofun ?_⟩
      · exact htop.imp id fun ⟨m, hm, hseq⟩ => ⟨m, hmem _ m hm, hseq⟩
      · intro m _ hgt _
        refine .gap c.wire [] rfl ?_ ?_
        · exact fun k' hk' => lt_of_le_of_lt (hc.seen k' hk') hgt
        · exact fun k' hk' => lt_of_le_of_lt (hc.wire k' hk') hgt
      · refine ⟨hplaced.handle, Nat.sub_le .., ?_, ?_⟩
        · rw [hreplay]
          exact nofun
        · intro m hm
          rcases mem_append.mp hm with hm | hm
          · exact le_trans (hplaced.passed m (mem_append_left _ hm)) hle
          · exact hall m hm
    · obtain ⟨e, he, heq⟩ := Option.map_eq_some_iff.mp hturn
      cases heq
      obtain ⟨hlt, hget⟩ := List.getElem?_eq_some_iff.mp he
      have htake : messages (feed.take (f.next + 1)) = messages (feed.take f.next) ++ messages [e] := by
        rw [take_add_one, he, messages_append]
        rfl
      obtain ⟨mark', hle, hall, htop⟩ := exists_mark mark (messages [e])
      have hpassed : ∀ m ∈ surface log₀ ++ messages (feed.take (f.next + 1)), m.seq ≤ mark' := by
        intro m hm
        rw [htake, ← append_assoc] at hm
        rcases mem_append.mp hm with hm | hm
        · exact le_trans (hplaced.passed m hm) hle
        · exact hall m hm
      refine ⟨mark', hc.push hk hnone hle ?_ ?_ ?_ ⟨hplaced.handle, hlt, ?_, hpassed⟩⟩
      · refine htop.imp id fun ⟨m, hm, hseq⟩ => ⟨m, hmem (f.next + 1) m ?_, hseq⟩
        rw [htake]
        exact mem_append_right _ hm
      · intro m hm hgt hmle
        rcases htop with rfl | ⟨m', hm', hseq⟩
        · exact absurd hmle (not_le.mpr hgt)
        -- whatever is in the log up to the event was passed before, or is the event
        have hsplit : surface log = (surface log₀ ++ messages (feed.take f.next)) ++
            (messages [e] ++ (messages (feed.drop (f.next + 1)) ++ rest)) := by
          rw [hlog, ← take_append_drop (f.next + 1) feed, messages_append, htake]
          simp only [append_assoc, take_append_drop]
        rw [hsplit] at hm hasc
        rcases mem_append.mp hm with hm | hm
        · exact absurd (hplaced.passed m hm) (not_le.mpr hgt)
        rcases mem_append.mp hm with hm | hm
        · refine .sent (mem_append_right _ (mem_singleton.mpr ?_))
          cases e <;> simp_all [messages]
        · have hcross := (pairwise_append.mp (pairwise_append.mp hasc).2.1).2.2
          exact absurd (hseq ▸ hmle) (not_le.mpr (hcross m' hm' m hm))
      · rintro m ⟨⟩
        exact hall m (by simp [messages])
      · rw [hreplay]
        exact nofun

theorem le_lastSeen_iff (c : Client) (n : Seq) :
    n ≤ c.lastSeen.getD Seq.ZERO ↔ n ≤ c.since.getD Seq.ZERO ∨ ∃ k ∈ c.seen, n ≤ k.seq := by
  have hfold : ∀ (l : List SessionMessage) (last : Option Seq),
      n ≤ (l.foldl (fun last m => if last.getD Seq.ZERO < m.seq then some m.seq else last)
        last).getD Seq.ZERO ↔ n ≤ last.getD Seq.ZERO ∨ ∃ k ∈ l, n ≤ k.seq := by
    intro l
    induction l with
    | nil => simp
    | cons m l ih =>
      intro last
      rw [foldl_cons, ih]
      split
      · rename_i hlt
        simp only [Option.getD_some, mem_cons, exists_eq_or_imp, ← or_assoc]
        have hiff : n ≤ m.seq ↔ n ≤ last.getD Seq.ZERO ∨ n ≤ m.seq :=
          ⟨.inr, fun h => h.elim (fun h => le_trans h (le_of_lt hlt)) id⟩
        rw [← hiff]
      · rename_i hge
        simp only [mem_cons, exists_eq_or_imp, ← or_assoc]
        have hiff : n ≤ last.getD Seq.ZERO ↔ n ≤ last.getD Seq.ZERO ∨ n ≤ m.seq :=
          ⟨.inl, fun h => h.elim id fun h => le_trans h (not_lt.mp hge)⟩
        rw [← hiff]
  exact hfold c.seen c.since

variable {since : Option Seq}

theorem Reached.append (h : Reached c since) {c' : Client}
    (hsince : c'.since = c.since) (hseen : ∀ k ∈ c.seen, k ∈ c'.seen) : Reached c' since := by
  unfold Reached
  rw [hsince]
  exact h.imp id fun ⟨k, hk, hle⟩ => ⟨k, hseen k hk, hle⟩

/-- The first frame is taken off the wire. Only that frame can be what secured the message. -/
theorem Secured.pop (h : Secured c V m) {c' : Client} (hwire : c.wire = frame :: c'.wire)
    (hold : ∀ k ∈ c.seen, k ∈ c'.seen)
    (hnew : ∀ k ∈ c'.seen, k ∈ c.seen ∨ frame = .event (.message k))
    (hrequests : ∀ since ∈ c.requests, since ∈ c'.requests)
    (hforwarders : c'.forwarders = c.forwarders)
    (hsent : frame = .event (.message m) → Secured c' V m)
    (hgap : frame = .gap → (∀ k ∈ c.seen, k.seq < m.seq) → Secured c' V m) :
    Secured c' V m := by
  cases h with
  | sent h =>
    rw [hwire] at h
    rcases mem_cons.mp h with heq | h
    · exact hsent heq.symm
    · exact .sent h
  | gap before after hw hs hb =>
    rw [hwire] at hw
    cases before with
    | nil => exact hgap (cons.inj hw).1 hs
    | cons frame before =>
      obtain ⟨rfl, hrest⟩ := cons.inj hw
      refine .gap before after hrest (fun k hk => ?_) fun k hk => hb k (mem_cons_of_mem _ hk)
      rcases hnew k hk with hk | rfl
      · exact hs k hk
      · exact hb k mem_cons_self
  | replayed f hf h => exact .replayed f (hforwarders ▸ hf) h
  | _ => solve_by_elim [Secured.seen, Secured.requested, Secured.asked, Secured.listening]

theorem Secured.receive (h : Secured c V m) (hsince : c.since.getD Seq.ZERO < m.seq) :
    Secured c.receive V m := by
  unfold Client.receive
  split
  · exact h
  · rename_i m' rest hwire
    refine h.pop hwire (fun k hk => mem_append_left _ hk) (fun k hk => ?_) (fun _ hs => hs) rfl ?_ nofun
    · refine (mem_append.mp hk).imp id fun hk => ?_
      rw [mem_singleton.mp hk]
    · rintro ⟨⟩
      exact .seen (mem_append_right _ (mem_singleton_self _))
  · rename_i rest hwire
    refine h.pop hwire (fun k hk => hk) (fun k => .inl) (fun _ hs => mem_append_left _ hs) rfl nofun ?_
    -- the client has seen nothing that far, so it asks for the message
    intro _ hs
    refine .requested c.lastSeen (mem_append_right _ (mem_singleton_self _)) ?_
    by_contra hge
    rcases (le_lastSeen_iff c m.seq).mp (not_lt.mp hge) with hle | ⟨k, hk, hle⟩
    · exact absurd hle (not_le.mpr hsince)
    · exact absurd hle (not_le.mpr (hs k hk))
  · rename_i frame rest hmessage hgap hwire
    refine h.pop hwire (fun k hk => hk) (fun k => .inl) (fun _ hs => hs) rfl ?_ ?_
    · exact fun heq => absurd heq (hmessage m)
    · exact fun heq => absurd heq hgap

theorem mem_wire_of_receive (h : frame ∈ c.receive.wire) : frame ∈ c.wire := by
  unfold Client.receive at h
  split at h
  · exact h
  all_goals
    rename_i hwire
    rw [hwire]
    exact mem_cons_of_mem _ h

theorem mem_seen_receive :
    m ∈ c.receive.seen → m ∈ c.seen ∨ .event (.message m) ∈ c.wire := by
  unfold Client.receive
  intro h
  split at h
  · exact .inl h
  · rename_i m' rest hwire
    rcases mem_append.mp h with h | h
    · exact .inl h
    · rw [hwire, mem_singleton.mp h]
      exact .inr mem_cons_self
  · exact .inl h
  · exact .inl h

theorem seen_subset_receive (h : m ∈ c.seen) : m ∈ c.receive.seen := by
  unfold Client.receive
  split
  · exact h
  · exact mem_append_left _ h
  · exact h
  · exact h

theorem receive_fixed : c.receive.since = c.since ∧ c.receive.forwarders = c.forwarders ∧
    c.receive.serving = c.serving := by
  unfold Client.receive
  split <;> exact ⟨rfl, rfl, rfl⟩

theorem Covered.receive (hc : Covered log₀ log feed c V mark) :
    Covered log₀ log feed c.receive V mark := by
  obtain ⟨hsince, hforwarders, -⟩ := receive_fixed (c := c)
  refine ⟨fun m hm hlt hle => ?_, hc.top, fun m hm => ?_, fun m hm => ?_, ?_, fun since hs => ?_⟩
  · rw [hsince] at hlt
    exact (hc.due m hm hlt hle).receive hlt
  · exact (mem_seen_receive hm).elim (hc.seen m) (hc.wire m)
  · exact hc.wire m (mem_wire_of_receive hm)
  · rw [hforwarders]
    exact hc.forwarders
  · have hold : since ∈ c.requests ∨ since = c.lastSeen := by
      unfold Client.receive at hs
      split at hs
      · exact .inl hs
      · exact .inl hs
      · exact (mem_append.mp hs).imp id mem_singleton.mp
      · exact .inl hs
    rcases hold with hold | rfl
    · exact (hc.requests since hold).append hsince fun k hk => seen_subset_receive hk
    · have hreached : Reached c c.lastSeen := (le_lastSeen_iff c _).mp (le_refl _)
      exact hreached.append hsince fun k hk => seen_subset_receive hk

theorem Covered.serve (hc : Covered log₀ log feed c V mark) {i : ℕ}
    {requests : List (Option Seq)} (hrequests : c.requests = since :: requests)
    (hi : (V i).task = .nothing) (hv : v.task = .asked since) :
    Covered log₀ log feed { c with requests := requests, serving := some i }
      (Function.update V i v) mark := by
  refine { hc with due := fun m hm hlt hle => ?_, requests := ?_ }
  · have h : Secured c (Function.update V i v) m := by
      apply (hc.due m hm hlt hle).update
      · intro since' hi'
        rw [hi] at hi'
        cases hi'
      · intro since' session start hi'
        rw [hi] at hi'
        cases hi'
    cases h with
    | requested since' hs h =>
      rw [hrequests] at hs
      rcases mem_cons.mp hs with rfl | hs
      · refine .asked i since' ?_ h
        rw [update_self, hv]
      · exact .requested since' hs h
    | _ => solve_by_elim [Secured.seen, Secured.sent, Secured.replayed, Secured.asked,
        Secured.listening, Secured.gap]
  · exact fun since' hs => hc.requests since' (hrequests ▸ mem_cons_of_mem _ hs)

variable {session : Session}

theorem mem_replay (hm : m ∈ surface session.log)
    (hsince : since.getD Seq.ZERO < m.seq) :
    m ∈ replay session since := by
  obtain ⟨hlog, hres⟩ := mem_surface.mp hm
  exact mem_append_right _ (mem_filter.mpr ⟨hlog, decide_eq_true ⟨hsince, hres⟩⟩)

theorem of_mem_replay (hm : m ∈ replay session since) :
    m.seq = Seq.ZERO ∨ m ∈ surface session.log := by
  rcases mem_append.mp hm with hm | hm
  · obtain ⟨envelope, -, rfl⟩ := Option.map_eq_some_iff.mp (Option.mem_toList.mp hm)
    exact .inl rfl
  · obtain ⟨hlog, hdue⟩ := mem_filter.mp hm
    exact .inr (mem_surface.mpr ⟨hlog, (of_decide_eq_true hdue).2⟩)

theorem Covered.listen (hc : Covered log₀ session.log feed c V mark) {i : ℕ}
    (hi : (V i).task = .asked since) {start : ℕ} (hv : v.task = .listening since session start) :
    Covered log₀ session.log feed c (Function.update V i v) mark := by
  apply hc.views
  intro m hm h
  apply h.update
  · intro since' hi' hlt
    rw [hi] at hi'
    cases hi'
    refine .listening i since session start ?_ (mem_replay hm hlt)
    rw [update_self, hv]
  · intro since' session' start' hi'
    rw [hi] at hi'
    cases hi'

theorem Covered.install (hc : Covered log₀ log feed c V mark)
    (hasc : Ascending SessionMessage.seq (surface log)) {i : ℕ} {start : ℕ}
    (hi : (V i).task = .listening since session start) (hreached : Reached c since)
    (hfirst : surface session.log <+: surface log) (hstart : start ≤ feed.length)
    (hpassed : ∀ m ∈ surface log₀ ++ messages (feed.take start), m ∈ surface session.log)
    (hdone : ∀ f, c.forwarders[0]? = some f → f.replay = []) :
    ∃ mark', Covered log₀ log feed (c.install ⟨0, replay session since, false, start⟩)
      (Function.update V i v) mark' := by
  obtain ⟨mark', hle, hall, htop⟩ := exists_mark mark (surface session.log)
  refine ⟨mark', ?_, ?_, ?_, ?_, ?_, hc.requests⟩
  · intro m hm hlt hmle
    rcases le_or_gt m.seq mark with hold | hgt
    · cases hc.due m hm hlt hold with
      | replayed f hf h =>
        rw [hdone f hf] at h
        cases h
      | asked j since' hj h =>
        refine .asked j since' ?_ h
        rwa [update_of_ne]
        rintro rfl
        rw [hi] at hj
        cases hj
      | listening j since' session' start' hj h =>
        by_cases hji : j = i
        · rw [hji, hi] at hj
          cases hj
          exact .replayed _ rfl h
        · refine .listening j since' session' start' ?_ h
          rwa [update_of_ne hji]
      | _ => solve_by_elim [Secured.seen, Secured.sent, Secured.requested, Secured.gap]
    · -- it is beyond what the client was sent, so the snapshot has it and the request asked for it
      have hsince : since.getD Seq.ZERO < m.seq := by
        rcases hreached with hs | ⟨k, hk, hs⟩
        · exact lt_of_le_of_lt hs hlt
        · exact lt_of_le_of_lt (le_trans hs (hc.seen k hk)) hgt
      rcases htop with rfl | ⟨k, hk, hseq⟩
      · exact absurd hmle (not_le.mpr hgt)
      refine .replayed _ rfl (mem_replay ?_ hsince)
      obtain ⟨rest, hrest⟩ := hfirst
      rw [← hrest] at hm hasc
      rcases mem_append.mp hm with hm | hm
      · exact hm
      · have hcross := (pairwise_append.mp hasc).2.2 k hk m hm
        exact absurd (hseq ▸ hmle) (not_le.mpr hcross)
  · rcases htop with rfl | ⟨k, hk, hseq⟩
    · exact hc.top
    · exact .inr ⟨k, hfirst.subset hk, le_of_eq hseq⟩
  · exact fun m hm => le_trans (hc.seen m hm) hle
  · exact fun m hm => le_trans (hc.wire m hm) hle
  · intro f hf
    rcases mem_cons.mp hf with rfl | hf
    · refine ⟨rfl, hstart, fun m hm => ?_, fun m hm => hall m (hpassed m hm)⟩
      rcases of_mem_replay hm with hzero | hm
      · rw [hzero]
        exact Seq.zero_le _
      · exact hall m hm
    · exact (hc.forwarders f hf).mono hle

end Client

def Working (log₀ : List SessionMessage) (w : World × Client) (i : ℕ) : Task → Prop
  | .nothing => True
  | .asked since => w.2.serving = some i ∧ Reached w.2 since
  | .listening since session start => w.2.serving = some i ∧ Reached w.2 since ∧
      surface session.log <+: surface (w.1.cells 0).session.log ∧
      start ≤ (w.1.cells 0).feed.length ∧
      ∀ m ∈ surface log₀ ++ messages ((w.1.cells 0).feed.take start), m ∈ surface session.log

structure Knows (log₀ : List SessionMessage) (w : World × Client) (i : ℕ) (v : View) : Prop where
  held : ∀ session, v.held = some session →
    (w.1.cells 0).holder = some i ∧ (w.1.cells 0).session = session
  task : Working log₀ w i v.task

/-- The session shows what was there first, what was sent, and what calls owe. -/
structure Inv (log₀ : List SessionMessage) (since₀ : Option Seq) (w : World × Client)
    (V : ℕ → View) : Prop where
  entry : w.1.sessions = some 0
  since : w.2.since = since₀
  ascending : Ascending SessionMessage.seq (w.1.cells 0).session.log
  le_head : ∀ m ∈ (w.1.cells 0).session.log, m.seq ≤ (w.1.cells 0).session.head
  knows : ∀ i, Knows log₀ w i (V i)
  sent : ∃ rest : List (SessionMessage × ℕ),
    surface (w.1.cells 0).session.log =
        surface log₀ ++ messages (w.1.cells 0).feed ++ rest.map Prod.fst ∧
      ∀ i m, (V i).owes = some m ↔ (m, i) ∈ rest
  client : ∃ mark, Covered log₀ (w.1.cells 0).session.log (w.1.cells 0).feed w.2 V mark

section Steps

variable {log₀ : List SessionMessage} {since₀ : Option Seq} {s : World} {c : Client}
  {V : ℕ → View} {i : ℕ}

theorem ascending_surface {log : List SessionMessage} (h : Ascending SessionMessage.seq log) :
    Ascending SessionMessage.seq (surface log) :=
  Ascending.sublist _ h filter_sublist

theorem Working.mono {task : Task} (h : Working log₀ (s, c) i task) {s' : World}
    (hlog : surface (s.cells 0).session.log <+: surface (s'.cells 0).session.log)
    (hfeed : (s.cells 0).feed <+: (s'.cells 0).feed) : Working log₀ (s', c) i task := by
  cases task with
  | nothing => trivial
  | asked since => exact h
  | listening since snapshot start =>
    obtain ⟨hserving, hreached, hsnap, hstart, hpassed⟩ := h
    obtain ⟨more, hmore⟩ := hfeed
    refine ⟨hserving, hreached, hsnap.trans hlog, ?_, ?_⟩
    · rw [← hmore, length_append]
      exact Nat.le_add_right_of_le hstart
    · rwa [← hmore, take_append_of_le_length hstart]

theorem Working.serving {w : World × Client} {task : Task} (h : Working log₀ w i task) :
    task = .nothing ∨ w.2.serving = some i := by
  cases task with
  | nothing => exact .inl rfl
  | _ => exact .inr h.1

theorem owes_update {rest : List (SessionMessage × ℕ)}
    (hrest : ∀ j m, (V j).owes = some m ↔ (m, j) ∈ rest) (hv : v.owes = (V i).owes) :
    ∀ j m, (Function.update V i v j).owes = some m ↔ (m, j) ∈ rest := by
  intro j m
  by_cases hji : j = i
  · rw [hji, update_self, hv]
    exact hrest i m
  · rw [update_of_ne hji]
    exact hrest j m

section

variable (hI : Inv log₀ since₀ (s, c) V)
include hI

theorem Inv.sent_update (hv : v.owes = (V i).owes) :
    ∃ rest : List (SessionMessage × ℕ), surface (s.cells 0).session.log =
        surface log₀ ++ messages (s.cells 0).feed ++ rest.map Prod.fst ∧
      ∀ j m, (Function.update V i v j).owes = some m ↔ (m, j) ∈ rest := by
  obtain ⟨rest, hlog, hrest⟩ := hI.sent
  exact ⟨rest, hlog, owes_update hrest hv⟩

theorem Inv.of_eq {s' : World} (hentry : s'.sessions = s.sessions)
    (hcells : s'.cells = s.cells) : Inv log₀ since₀ (s', c) V := by
  obtain ⟨h1, hsince, h2, h3, h4, h5, h6⟩ := hI
  refine ⟨hentry.trans h1, hsince, ?_, ?_, fun j => ⟨?_, Working.mono (h4 j).task ?_ ?_⟩, ?_, ?_⟩
  · rwa [hcells]
  · rwa [hcells]
  · have := (h4 j).held
    rwa [hcells]
  · rw [hcells]
  · rw [hcells]
  · rwa [hcells]
  · rwa [hcells]

theorem Inv.not_held (hi : (V i).held = some session) {j : ℕ}
    (hj : j ≠ i) : (V j).held = none := by
  by_contra hne
  obtain ⟨session', hs⟩ := Option.ne_none_iff_exists'.mp hne
  have h1 := ((hI.knows i).held session hi).1
  have h2 := ((hI.knows j).held session' hs).1
  rw [h1] at h2
  exact hj (Option.some.inj h2).symm

theorem Inv.cell {f : Cell → Cell} {x : Cell} (hx : f (s.cells 0) = x) (hv : v.task = (V i).task)
    (hlog : surface (s.cells 0).session.log <+: surface x.session.log)
    (hfeed : (s.cells 0).feed <+: x.feed) (hasc : Ascending SessionMessage.seq x.session.log)
    (hle : ∀ m ∈ x.session.log, m.seq ≤ x.session.head)
    (hheld : ∀ session, v.held = some session → x.holder = some i ∧ x.session = session)
    (hothers : ∀ j, j ≠ i → ∀ session, (V j).held = some session →
      x.holder = some j ∧ x.session = session)
    (hsent : ∃ rest : List (SessionMessage × ℕ),
      surface x.session.log = surface log₀ ++ messages x.feed ++ rest.map Prod.fst ∧
        ∀ j m, (Function.update V i v j).owes = some m ↔ (m, j) ∈ rest)
    (hcov : ∃ mark, Covered log₀ x.session.log x.feed c V mark) :
    Inv log₀ since₀ (s.modify 0 f, c) (Function.update V i v) := by
  obtain rfl : (s.modify 0 f).cells 0 = x := (World.modify_cells_self ..).trans hx
  obtain ⟨mark, hcov⟩ := hcov
  refine ⟨hI.entry, hI.since, hasc, hle, ?_, hsent, mark, ?_⟩
  · apply (forall_update_iff V fun j v => Knows log₀ _ j v).mpr
    have hworking : ∀ j, Working log₀ (s.modify 0 f, c) j (V j).task := fun j =>
      Working.mono (hI.knows j).task hlog hfeed
    exact ⟨⟨hheld, hv ▸ hworking i⟩, fun j hj => ⟨hothers j hj, hworking j⟩⟩
  · exact hcov.views fun m _ h => h.same_task hv

theorem Inv.set_holder {holder : Option ℕ} (held : Option Session)
    (hothers : ∀ j, j ≠ i → (V j).held = none)
    (hheld : ∀ session, held = some session → holder = some i ∧ (s.cells 0).session = session) :
    Inv log₀ since₀ (s.modify 0 fun x => { x with holder := holder }, c)
      (Function.update V i { V i with held := held }) := by
  refine hI.cell rfl rfl prefix_rfl prefix_rfl hI.ascending hI.le_head hheld ?_ (hI.sent_update rfl)
    hI.client
  intro j hj session hs
  rw [hothers j hj] at hs
  cases hs

/-- Under the lock the session comes to show one message more at most, then owed. -/
theorem Inv.commit {session session' : Session}
    (owed : Option SessionMessage) (hv : (V i).held = some session) (hnone : (V i).owes = none)
    (hasc : Ascending SessionMessage.seq session'.log) (hle : ∀ m ∈ session'.log, m.seq ≤ session'.head)
    (hlog : surface session'.log = surface session.log ++ owed.toList) :
    Inv log₀ since₀ (s.modify 0 fun x => { x with session := session' }, c)
      (Function.update V i { V i with held := some session', owes := owed }) := by
  obtain ⟨hholder, rfl⟩ := (hI.knows i).held session hv
  obtain ⟨mark, hcov⟩ := hI.client
  obtain ⟨rest, hsent, hrest⟩ := hI.sent
  refine hI.cell rfl rfl ⟨_, hlog.symm⟩ prefix_rfl hasc hle ?_ ?_ ?_ ⟨mark, ?_⟩
  · rintro _ ⟨⟩
    exact ⟨hholder, rfl⟩
  · intro j hj session'' hs
    rw [hI.not_held hv hj] at hs
    cases hs
  · refine ⟨rest ++ (owed.map fun m => (m, i)).toList, ?_, ?_⟩
    · rw [hlog, hsent]
      cases owed <;> simp
    · intro j m
      by_cases hji : j = i
      · subst hji
        have hnot : (m, j) ∉ rest := fun hmem => by
          rw [(hrest j m).mpr hmem] at hnone
          cases hnone
        cases owed <;> simp [hnot, eq_comm]
      · rw [update_of_ne hji, hrest, mem_append]
        cases owed <;> simp [hji]
  · cases owed with
    | none =>
      have heq : surface session'.log = surface (s.cells 0).session.log := by simpa using hlog
      exact ⟨heq ▸ hcov.due, heq ▸ hcov.top, hcov.seen, hcov.wire, hcov.forwarders, hcov.requests⟩
    | some m =>
      refine hcov.commit hlog fun k hk => ?_
      have hasc' := ascending_surface hasc
      rw [hlog] at hasc'
      exact (pairwise_append.mp hasc').2.2 k hk m (by simp)

theorem Inv.next_sent (hv : (V i).owes = some m)
    (hturn : ∀ k ∈ (s.cells 0).session.log, isReserved k = false → k.seq < m.seq →
      k ∈ log₀ ∨ .message k ∈ (s.cells 0).feed) :
    ∃ rest : List (SessionMessage × ℕ),
      surface (s.cells 0).session.log =
          surface log₀ ++ messages (s.cells 0).feed ++ m :: rest.map Prod.fst ∧
        ∀ j k, (V j).owes = some k ↔ (k, j) ∈ (m, i) :: rest := by
  obtain ⟨rest, hlog, hrest⟩ := hI.sent
  have hmem := (hrest i m).mp hv
  have hasc := ascending_surface hI.ascending
  rw [hlog] at hasc
  cases rest with
  | nil => cases hmem
  | cons x rest =>
    have hx : x = (m, i) := by
      rcases mem_cons.mp hmem with heq | htail
      · exact heq.symm
      -- whatever stood before it would have a smaller seq, and that has been sent
      · exfalso
        obtain ⟨-, hasc', hcross⟩ := pairwise_append.mp hasc
        have hlt : x.1.seq < m.seq :=
          (pairwise_cons.mp hasc').1 m (mem_map.mpr ⟨_, htail, rfl⟩)
        have hxlog : x.1 ∈ surface (s.cells 0).session.log := by
          rw [hlog]
          simp
        obtain ⟨hxin, hxres⟩ := mem_surface.mp hxlog
        have hbefore : x.1 ∈ surface log₀ ++ messages (s.cells 0).feed := by
          rcases hturn x.1 hxin hxres hlt with hk | hk
          · exact mem_append_left _ (mem_surface.mpr ⟨hk, hxres⟩)
          · exact mem_append_right _ (mem_filterMap.mpr ⟨_, hk, rfl⟩)
        exact lt_irrefl _ (hcross x.1 hbefore x.1 (by simp))
    subst hx
    exact ⟨rest, hlog, hrest⟩

end

section

variable (hI : Inv log₀ since₀ (s, c) V)
include hI

theorem Inv.emit (hv : (V i).owes = some m)
    (hturn : ∀ k ∈ (s.cells 0).session.log, isReserved k = false → k.seq < m.seq →
      k ∈ log₀ ∨ .message k ∈ (s.cells 0).feed) :
    Inv log₀ since₀ (s.modify 0 fun x => { x with feed := x.feed ++ [.message m] }, c)
      (Function.update V i { V i with owes := none }) := by
  obtain ⟨rest, hlog, hrest⟩ := hI.next_sent hv hturn
  obtain ⟨mark, hcov⟩ := hI.client
  refine hI.cell rfl rfl prefix_rfl (prefix_append _ _) hI.ascending hI.le_head (hI.knows i).held
    (fun j _ => (hI.knows j).held) ?_ ⟨mark, hcov.emit _⟩
  refine ⟨rest, ?_, ?_⟩
  · have hone : messages [.message m] = [m] := rfl
    rw [hlog, messages_append, hone]
    simp only [append_assoc, singleton_append]
  · intro j k
    by_cases hji : j = i
    · subst hji
      rw [update_self]
      refine ⟨nofun, fun hmem => ?_⟩
      -- a call owes one message, and the log has it once
      have hk : k = m := by
        have := (hrest j k).mpr (mem_cons_of_mem _ hmem)
        rw [hv] at this
        exact (Option.some.inj this).symm
      have hasc := ascending_surface hI.ascending
      rw [hlog] at hasc
      have hpair := (pairwise_append.mp hasc).2.1
      have hlt := (pairwise_cons.mp hpair).1 k (mem_map.mpr ⟨_, hmem, rfl⟩)
      rw [hk] at hlt
      exact absurd hlt (lt_irrefl _)
    · rw [update_of_ne hji, hrest, mem_cons]
      simp [hji]

theorem Inv.client_step {c' : Client} (hsince : c'.since = c.since)
    (hserving : c'.serving = c.serving)
    (hreached : ∀ since, Reached c since → Reached c' since)
    (hcov : ∃ mark, Covered log₀ (s.cells 0).session.log (s.cells 0).feed c' V mark) :
    Inv log₀ since₀ (s, c') V := by
  refine ⟨hI.entry, hsince.trans hI.since, hI.ascending, hI.le_head,
    fun j => ⟨(hI.knows j).held, ?_⟩, hI.sent, hcov⟩
  have h := (hI.knows j).task
  unfold Working at h ⊢
  split at h
  · trivial
  · exact ⟨hserving.trans h.1, hreached _ h.2⟩
  · exact ⟨hserving.trans h.1, hreached _ h.2.1, h.2.2⟩

theorem Inv.receive : Inv log₀ since₀ (s, c.receive) V := by
  obtain ⟨hsince, -, hserving⟩ := receive_fixed (c := c)
  obtain ⟨mark, hcov⟩ := hI.client
  apply hI.client_step hsince hserving
  · exact fun since h => h.append hsince fun k hk => seen_subset_receive hk
  · exact ⟨mark, hcov.receive⟩

theorem Inv.forward (k : ℕ) :
    Inv log₀ since₀ (s, c.forward k fun h => (s.cells h).feed) V := by
  obtain ⟨mark, hcov⟩ := hI.client
  obtain ⟨rest, hlog, -⟩ := hI.sent
  unfold Client.forward
  split
  · exact hI
  rename_i f hf
  have hhandle := (hcov.forwarders f (mem_of_getElem? hf)).handle
  rw [hhandle]
  split
  · exact hI
  rename_i frame f' hturn
  apply hI.client_step
  · rfl
  · rfl
  · exact fun _ h => h
  · exact hcov.turn (ascending_surface hI.ascending) hlog hf hturn

end

variable {since : Option Seq}

section

variable (hI : Inv log₀ since₀ (s, c) V)
include hI

theorem Inv.take (hv : V i = .idle) (hserving : c.serving = none)
    {requests : List (Option Seq)} (hrequests : c.requests = since :: requests) :
    Inv log₀ since₀ (s, { c with requests := requests, serving := some i })
      (Function.update V i { V i with task := .asked since }) := by
  obtain ⟨mark, hcov⟩ := hI.client
  have hreached := hcov.requests since (hrequests ▸ mem_cons_self)
  refine ⟨hI.entry, hI.since, hI.ascending, hI.le_head, ?_, hI.sent_update rfl, mark, ?_⟩
  · apply (forall_update_iff V fun j v => Knows log₀ _ j v).mpr
    refine ⟨⟨(hI.knows i).held, rfl, hreached⟩, fun j _ => ⟨(hI.knows j).held, ?_⟩⟩
    -- no other call works on a request
    obtain hnothing | hother := Working.serving (hI.knows j).task
    · rw [hnothing]
      trivial
    · exact absurd (hserving.symm.trans hother) nofun
  · exact hcov.serve hrequests (by rw [hv]; rfl) rfl

theorem Inv.listen
    (hheld : (V i).held = some session) (htask : (V i).task = .asked since) :
    Inv log₀ since₀ (s, c)
      (Function.update V i { V i with task := .listening since session (s.cells 0).feed.length }) := by
  obtain ⟨mark, hcov⟩ := hI.client
  obtain ⟨rest, hlog, -⟩ := hI.sent
  obtain ⟨hholder, rfl⟩ := (hI.knows i).held session hheld
  have hworking := (hI.knows i).task
  rw [htask] at hworking
  refine ⟨hI.entry, hI.since, hI.ascending, hI.le_head, ?_, hI.sent_update rfl, mark, hcov.listen htask rfl⟩
  apply (forall_update_iff V fun j v => Knows log₀ _ j v).mpr
  refine ⟨⟨(hI.knows i).held, hworking.1, hworking.2, prefix_refl _, Nat.le_refl _, ?_⟩,
    fun j _ => hI.knows j⟩
  intro m hm
  rw [take_length] at hm
  rw [hlog]
  exact mem_append_left _ hm

theorem Inv.install {start : ℕ}
    (htask : (V i).task = .listening since session start)
    (hdone : ∀ f, c.forwarders[0]? = some f → f.replay = []) :
    Inv log₀ since₀ (s, c.install ⟨0, replay session since, false, start⟩)
      (Function.update V i { V i with task := .nothing }) := by
  obtain ⟨mark, hcov⟩ := hI.client
  have hworking := (hI.knows i).task
  rw [htask] at hworking
  obtain ⟨hserving, hreached, hsnap, hstart, hpassed⟩ := hworking
  refine ⟨hI.entry, hI.since, hI.ascending, hI.le_head, ?_, hI.sent_update rfl, ?_⟩
  · apply (forall_update_iff V fun j v => Knows log₀ _ j v).mpr
    refine ⟨⟨(hI.knows i).held, trivial⟩, fun j hj => ⟨(hI.knows j).held, ?_⟩⟩
    obtain hnothing | hother := Working.serving (hI.knows j).task
    · rw [hnothing]
      trivial
    · exact absurd (Option.some.inj (hserving.symm.trans hother)).symm hj
  · exact hcov.install (ascending_surface hI.ascending) htask hreached hsnap hstart hpassed hdone

end

end Steps

end Artel.GapRecovery
