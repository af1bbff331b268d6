import Artel.Lib.Run
import Artel.Session.Host

namespace Artel.Retry

open Store Frames

variable {ed : Ed25519} (d : Daemon ed) (id : SessionId)

/-- A send finds in the log file exactly what the session has in memory. -/
def Clean (s : HostState) : HostOp → Prop
  | .send _ _ _ => ∀ session ∈ s.memory, s.disk.logBytes = encodeLog session.log
  | _ => True

/-- The complete frames number upwards too, acknowledged messages among them. -/
structure Unique (s : HostState) : Prop where
  file : ∃ file tail, Framed MAX_FRAME_SIZE s.disk.logBytes (file.map encodeMessage) tail ∧
    Ascending SessionMessage.seq file ∧ s.acked.Sublist file
  memory : ∀ session ∈ s.memory, Numbered session

theorem framed_size {bytes tail : Bytes} {file : List SessionMessage}
    (h : Framed MAX_FRAME_SIZE bytes (file.map encodeMessage) tail) :
    ∀ m ∈ file, (encodeMessage m).length ≤ MAX_FRAME_SIZE :=
  fun _ hm => h.length_le _ (List.mem_map_of_mem hm)

theorem file_eq_log {bytes tail : Bytes} {file log : List SessionMessage}
    (h : Framed MAX_FRAME_SIZE bytes (file.map encodeMessage) tail)
    (hlog : ∀ m ∈ log, (encodeMessage m).length ≤ MAX_FRAME_SIZE) (heq : bytes = encodeLog log) :
    file = log := by
  have h1 := h.scan_eq max_frame_lt
  have h2 := (framed_encodeLog log hlog).scan_eq max_frame_lt
  rw [heq, h2] at h1
  exact (map_encodeMessage_injective hlog (framed_size h) (congrArg Prod.fst h1)).symm

theorem unique_send (s : HostState) (nowMs : UInt64) (draft : Draft) (fault : Option AppendFault)
    (h : Unique s) (hc : Clean s (.send nowMs draft fault)) :
    Unique (HostState.send d s nowMs draft fault) := by
  obtain heq | ⟨session, m, hmem, hm, hresult⟩ := HostState.send_cases d s nowMs draft fault
  · rwa [heq]
  have hnum := h.memory session hmem
  have hnext := numbered_commitSend hnum hm
  obtain ⟨file, tail, hf, hasc, hacked⟩ := h.file
  -- the guard: the file is the log, so its frames end where it ends
  have hbytes := hc session hmem
  obtain rfl := file_eq_log hf hnum.size hbytes
  have hwhole := framed_encodeLog _ hnum.size
  rw [← hbytes] at hwhole
  have hframed := append_framed fault m hwhole
  obtain ⟨e, he, heq⟩ | ⟨hok, heq⟩ := hresult <;> rw [heq]
  · obtain ⟨-, rest, -, hf'⟩ | ⟨-, hf'⟩ := hframed
    · exact ⟨⟨_, rest, hf', hasc, hacked⟩, h.memory⟩
    -- the frame is complete in spite of the error: in the file, but not acknowledged
    · refine ⟨⟨session.log ++ [m], [], by simpa using hf', hnext.ascending, ?_⟩, h.memory⟩
      exact hacked.trans (List.sublist_append_left _ _)
  · obtain ⟨e, _, he, -⟩ | ⟨-, hf'⟩ := hframed
    · rw [hok] at he
      cases he
    · refine ⟨⟨session.log ++ [m], [], by simpa using hf', hnext.ascending, ?_⟩, ?_⟩
      · exact hacked.append (List.Sublist.refl _)
      · intro x hx
        obtain rfl := Option.some.inj hx
        exact hnext

theorem Unique.of_entry {s s' : HostState} (h : Unique s) (hacked : s'.acked = s.acked)
    (hbytes : s'.disk.logBytes = s.disk.logBytes) (hentry : HostState.Entry id s.memory s'.memory) :
    Unique s' := by
  refine ⟨by rw [hbytes, hacked]; exact h.file, ?_⟩
  intro session hsession
  rw [Option.mem_def] at hsession
  rw [hsession] at hentry
  cases hentry with
  | kept hold _ hlog hhead => exact numbered_of_log_eq (h.memory _ hold) hlog hhead
  | created call floor => exact numbered_createdSession id call floor

theorem unique_load (ed : Ed25519) (s : HostState) (memory : Option Session) (h : Unique s)
    (hmem : ∀ session ∈ memory, Numbered session) :
    Unique { s with memory := memory, disk := (load ed id true s.disk).2 } := by
  obtain ⟨file, tail, hf, hasc, hacked⟩ := h.file
  obtain heq | heq := load_logBytes ed id true s.disk
  · exact ⟨⟨file, tail, by rwa [heq], hasc, hacked⟩, hmem⟩
  · refine ⟨⟨file, [], ?_, hasc, hacked⟩, hmem⟩
    rw [heq, take_scan, hf.scan_eq max_frame_lt]
    exact hf.truncate

theorem numbered_fromRecord (ed : Ed25519) (s : HostState) (r : SessionRecord) (h : Unique s)
    (hr : (load ed id true s.disk).1 = .ok r) : Numbered (.fromRecord r) := by
  obtain ⟨file, tail, hf, hasc, -⟩ := h.file
  obtain ⟨hlog, hhead⟩ := load_ok hr
  have hsub : r.log.Sublist file := by
    rw [hlog, readLog_framed ed id true hf]
    exact filterMap_readFrame_sublist ed id true file (framed_size hf)
  exact ⟨hasc.sublist _ hsub, hhead, fun m hm => framed_size hf m (hsub.subset hm)⟩

theorem unique_restart (ed : Ed25519) (s : HostState) (skipped : Option Skip) (h : Unique s) :
    Unique (s.restart ed id skipped) := by
  unfold HostState.restart
  split
  · exact h.of_entry id rfl rfl .gone
  · exact unique_load id ed s none h (by simp)
  split
  · rename_i heq
    have hload := unique_load id ed s none h (by simp)
    rwa [heq] at hload
  · rename_i r disk heq
    have hnum := numbered_fromRecord id ed s r h (by rw [heq])
    have hload := unique_load id ed s (some (.fromRecord r)) h (by simpa using hnum)
    rwa [heq] at hload

/-- No seq is given out twice while sends find in the file what is in memory. -/
theorem seqs_distinct (floor : Option UInt64) (ops : List HostOp)
    (hleave : ∀ peer, .leave peer ∉ ops)
    (hclean : Along (HostState.step d id) Clean ⟨none, ⟨none, floor⟩, []⟩ ops) :
    ((ops.foldl (HostState.step d id) ⟨none, ⟨none, floor⟩, []⟩).acked.map
        SessionMessage.seq).Nodup ∧
      ∀ session ∈ (ops.foldl (HostState.step d id) ⟨none, ⟨none, floor⟩, []⟩).memory,
        (session.log.map SessionMessage.seq).Nodup := by
  have hstart : Unique ⟨none, ⟨none, floor⟩, []⟩ :=
    ⟨⟨[], [], Framed.nil _, List.Pairwise.nil, List.Sublist.refl _⟩, by simp⟩
  have hstep : ∀ s o, Unique s → Clean s o ∧ (∀ peer, o ≠ .leave peer) →
      Unique (HostState.step d id s o) := by
    rintro s (call | ⟨nowMs, draft, fault⟩ | peer | peer | skipped) h ⟨hc, hne⟩
    · obtain ⟨hacked, hbytes, hentry⟩ := HostState.host_cases id s call
      exact h.of_entry id hacked hbytes hentry
    · exact unique_send d s nowMs draft fault h hc
    · obtain ⟨hacked, hbytes, hentry⟩ := HostState.ensureMember_cases id s peer
      exact h.of_entry id hacked hbytes hentry
    · exact absurd rfl (hne peer)
    · exact unique_restart id ed s skipped h
  have hops : ∀ o ∈ ops, ∀ peer, o ≠ HostOp.leave peer := by
    rintro o ho peer rfl
    exact hleave peer ho
  obtain ⟨⟨file, tail, -, hasc, hacked⟩, hmem⟩ := (hclean.and_of_mem hops).invariant hstep hstart
  refine ⟨(hasc.sublist _ hacked).nodup_map _, fun session hs => ?_⟩
  exact (hmem session hs).ascending.nodup_map _

open Sample

def run (ops : List HostOp) : HostState :=
  ops.foldl (HostState.step daemon session) ⟨none, ⟨none, none⟩, []⟩

/-- Two sends and a restart with nothing failing between. -/
theorem seqs_distinct_two_sends :
    ((run [.host call, .send 0 (note [1]) none, .send 0 (note [2]) none,
        .restart none]).acked.map SessionMessage.seq).Nodup ∧
      ∀ session ∈ (run [.host call, .send 0 (note [1]) none,
        .send 0 (note [2]) none, .restart none]).memory,
        (session.log.map SessionMessage.seq).Nodup := by
  have hguard : ∀ s : HostState,
      (s.memory.all fun session => decide (s.disk.logBytes = encodeLog session.log)) = true →
        Clean s (.send 0 (note []) none) := by
    intro s hall session hmem
    rw [Option.mem_def] at hmem
    simpa [hmem] using hall
  refine seqs_distinct daemon session none
    [.host call, .send 0 (note [1]) none, .send 0 (note [2]) none,
      .restart none] (by simp) ⟨trivial, ?_, ?_, trivial, trivial⟩
  · exact hguard _ (by decide +kernel)
  · exact hguard _ (by decide +kernel)

/-- The directory that two sends leave when the first one fails after its frame is written. -/
def twice : SessionDir where
  log := some (encodeLog [message 0 1 .chat "" [1], message 0 1 .chat "" [2]])
  metaJson := some ⟨META_VERSION, peer 0, {peer 0}, ⟨1⟩, .Local, 0⟩
  ticketsJson := some ⟨TICKETS_VERSION, [ledgerEntry call]⟩
  workspaceTicket := none

/-- A failed append leaves its frame, and a re-created session counts from one. -/
theorem failed_append_reuses_seq :
    (∃ session, (run [.host call,
        .send 0 (note [1]) (some (.writeMeta .beforeRename)),
        .send 0 (note [2]) none, .restart none]).memory = some session ∧
      session.log.map SessionMessage.seq = [⟨1⟩, ⟨1⟩]) ∧
    (run [.host call, .send 0 (note [1]) none, .restart (some .beforeLog),
      .host call, .send 0 (note [2]) none]).acked.map SessionMessage.seq = [⟨1⟩, ⟨1⟩] := by
  have hdir : (run [.host call, .send 0 (note [1]) (some (.writeMeta .beforeRename)),
      .send 0 (note [2]) none]).disk.dir = some twice := by decide +kernel
  have hsigned : ∀ m ∈ [message 0 1 .chat "" [1], message 0 1 .chat "" [2]],
      Signing.verifyMessage .checksum session m m.signature = .ok () := by
    intro m hm
    simp only [List.mem_cons, List.not_mem_nil, or_false] at hm
    obtain rfl | rfl := hm <;> exact verify_message _ _ _ _ _
  have hload := loadOne_ok .checksum session true twice rfl rfl rfl
    (fun _ h => by cases h) (by decide +kernel)
    fun _ => hsigned
  have hrun : run [.host call, .send 0 (note [1]) (some (.writeMeta .beforeRename)),
      .send 0 (note [2]) none, .restart none] =
      HostState.restart .checksum session (run [.host call,
        .send 0 (note [1]) (some (.writeMeta .beforeRename)),
        .send 0 (note [2]) none]) none := by
    simp only [run, List.foldl_cons, List.foldl_nil]
    rfl
  refine ⟨?_, by decide +kernel⟩
  rw [hrun]
  simp only [HostState.restart, load, hdir, hload]
  exact ⟨_, rfl, rfl⟩

end Artel.Retry
