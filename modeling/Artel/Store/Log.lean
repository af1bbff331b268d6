import Artel.Lib.Frames
import Artel.Protocol.Signing

namespace Artel.Store

open Frames List

inductive IoError
  | notFound
  | invalidData
  | other
  deriving DecidableEq

def MAX_FRAME_SIZE : ℕ := 16 * 1024 * 1024

def encodeMessage (m : SessionMessage) : Bytes := Wire.sessionMessage.put m

def encodeLog (log : List SessionMessage) : Bytes := frames (log.map encodeMessage)

/-- `fault` is an error after that many bytes; at the full length the sync's. -/
def appendLog (fault : Option ℕ) (m : SessionMessage) (file : Bytes) :
    Except IoError Unit × Bytes :=
  if MAX_FRAME_SIZE < (encodeMessage m).length then (.error .invalidData, file)
  else
    match fault with
    | some k => (.error .other, file ++ (frame (encodeMessage m)).take k)
    | none => (.ok (), file ++ frame (encodeMessage m))

variable (ed : Ed25519)

/-- Skipped: what does not decode and, under `verify`, a bad author signature. -/
def readFrame (session : SessionId) (verify : Bool) (p : Bytes) : Option SessionMessage :=
  match Wire.sessionMessage.decode p with
  | none => none
  | some m =>
    if verify then
      match Signing.verifyMessage ed session m m.signature with
      | .error _ => none
      | .ok _ => some m
    else some m

/-- The messages of the complete frames, and the file cut after the last. -/
def readLog (session : SessionId) (verify : Bool) (file : Bytes) : List SessionMessage × Bytes :=
  let scanned := scan MAX_FRAME_SIZE file
  (scanned.1.filterMap (readFrame ed session verify), file.take scanned.2)

theorem length_le_encodeMessage (m : SessionMessage) :
    (Signing.utf8 m.action).length ≤ (encodeMessage m).length ∧
      m.payload.length ≤ (encodeMessage m).length := by
  simp only [encodeMessage, Wire.sessionMessage, Wire.map, Wire.pair, Wire.text, Wire.bytes,
    length_append, Signing.utf8]
  omega

theorem decode_encodeMessage (m : SessionMessage) (h : (encodeMessage m).length ≤ MAX_FRAME_SIZE) :
    Wire.sessionMessage.decode (encodeMessage m) = some m := by
  apply Wire.decode_put
  apply Wire.sessionMessage_fits
  have hmax : MAX_FRAME_SIZE < 2 ^ 64 := by decide
  exact lt_of_le_of_lt h hmax

theorem readFrame_encodeMessage (session : SessionId) (verify : Bool) (m : SessionMessage)
    (h : (encodeMessage m).length ≤ MAX_FRAME_SIZE)
    (hv : verify = true → Signing.verifyMessage ed session m m.signature = .ok ()) :
    readFrame ed session verify (encodeMessage m) = some m := by
  unfold readFrame
  rw [decode_encodeMessage m h]
  cases verify with
  | false => rfl
  | true => simp [hv rfl]

theorem max_frame_lt : MAX_FRAME_SIZE < 256 ^ 4 := by decide

@[simp] theorem encodeLog_nil : encodeLog [] = [] := rfl

@[simp] theorem encodeLog_append_singleton (log : List SessionMessage) (m : SessionMessage) :
    encodeLog (log ++ [m]) = encodeLog log ++ frame (encodeMessage m) := by
  simp [encodeLog]

theorem framed_encodeLog (log : List SessionMessage)
    (h : ∀ m ∈ log, (encodeMessage m).length ≤ MAX_FRAME_SIZE) :
    Framed MAX_FRAME_SIZE (encodeLog log) (log.map encodeMessage) [] where
  eq_append := (append_nil _).symm
  length_le p hp := by
    obtain ⟨m, hm, rfl⟩ := mem_map.mp hp
    exact h m hm
  torn := torn_nil _

theorem readLog_framed (session : SessionId) (verify : Bool) {file : Bytes} {ps : List Bytes}
    {tail : Bytes} (h : Framed MAX_FRAME_SIZE file ps tail) :
    readLog ed session verify file = (ps.filterMap (readFrame ed session verify), frames ps) := by
  rw [readLog, take_scan, h.scan_eq max_frame_lt]

theorem filterMap_readFrame (session : SessionId) (verify : Bool) (log : List SessionMessage)
    (hread : ∀ m ∈ log, readFrame ed session verify (encodeMessage m) = some m) :
    (log.map encodeMessage).filterMap (readFrame ed session verify) = log := by
  induction log with
  | nil => rfl
  | cons m log ih =>
    rw [map_cons, filterMap_cons_some (hread m mem_cons_self),
      ih fun x hx => hread x (mem_cons_of_mem m hx)]

theorem readFrame_encodeMessage_cases (session : SessionId) (verify : Bool) (m : SessionMessage)
    (h : (encodeMessage m).length ≤ MAX_FRAME_SIZE) :
    readFrame ed session verify (encodeMessage m) = none ∨
      readFrame ed session verify (encodeMessage m) = some m := by
  rw [readFrame, decode_encodeMessage m h]
  dsimp only
  split
  · split
    · exact .inl rfl
    · exact .inr rfl
  · exact .inr rfl

theorem filterMap_readFrame_sublist (session : SessionId) (verify : Bool)
    (log : List SessionMessage) (hsize : ∀ m ∈ log, (encodeMessage m).length ≤ MAX_FRAME_SIZE) :
    ((log.map encodeMessage).filterMap (readFrame ed session verify)).Sublist log := by
  induction log with
  | nil => exact List.Sublist.refl _
  | cons m log ih =>
    have hrest := ih fun x hx => hsize x (mem_cons_of_mem m hx)
    obtain hm | hm :=
      readFrame_encodeMessage_cases ed session verify m (hsize m mem_cons_self)
    · rw [map_cons, filterMap_cons_none hm]
      exact hrest.cons m
    · rw [map_cons, filterMap_cons_some hm]
      exact hrest.cons_cons m

theorem map_encodeMessage_injective {l l' : List SessionMessage}
    (h : ∀ m ∈ l, (encodeMessage m).length ≤ MAX_FRAME_SIZE)
    (h' : ∀ m ∈ l', (encodeMessage m).length ≤ MAX_FRAME_SIZE)
    (heq : l.map encodeMessage = l'.map encodeMessage) : l = l' := by
  have hdecode : ∀ l : List SessionMessage,
      (∀ m ∈ l, (encodeMessage m).length ≤ MAX_FRAME_SIZE) →
        (l.map encodeMessage).filterMap Wire.sessionMessage.decode = l := by
    intro l hl
    induction l with
    | nil => rfl
    | cons m l ih =>
      rw [map_cons,
        filterMap_cons_some (decode_encodeMessage m (hl m mem_cons_self)),
        ih fun x hx => hl x (mem_cons_of_mem m hx)]
  rw [← hdecode l h, heq, hdecode l' h']

theorem readLog_encodeLog (session : SessionId) (verify : Bool) (log : List SessionMessage)
    (hsize : ∀ m ∈ log, (encodeMessage m).length ≤ MAX_FRAME_SIZE)
    (hv : verify = true → ∀ m ∈ log, Signing.verifyMessage ed session m m.signature = .ok ()) :
    readLog ed session verify (encodeLog log) = (log, encodeLog log) := by
  have hread := filterMap_readFrame ed session verify log fun m hm =>
    readFrame_encodeMessage ed session verify m (hsize m hm) fun h => hv h m hm
  rw [readLog_framed ed session verify (framed_encodeLog log hsize), hread, encodeLog]

theorem readLog_append_singleton (session : SessionId) (verify : Bool) {log : List SessionMessage}
    {m : SessionMessage} (hsize : ∀ x ∈ log ++ [m], (encodeMessage x).length ≤ MAX_FRAME_SIZE) :
    (readLog ed session verify (encodeLog (log ++ [m]))).1 =
        (readLog ed session verify (encodeLog log)).1 ∨
      (readLog ed session verify (encodeLog (log ++ [m]))).1 =
        (readLog ed session verify (encodeLog log)).1 ++ [m] := by
  have hlog : ∀ x ∈ log, (encodeMessage x).length ≤ MAX_FRAME_SIZE :=
    fun x hx => hsize x (mem_append_left _ hx)
  rw [readLog_framed ed session verify (framed_encodeLog _ hsize),
    readLog_framed ed session verify (framed_encodeLog _ hlog), map_append,
    filterMap_append]
  obtain hm | hm := readFrame_encodeMessage_cases ed session verify m (hsize m (by simp))
  · exact .inl (by simp [hm])
  · exact .inr (by simp [hm])

def afterAppends (file : Bytes) (log : List SessionMessage) : Bytes :=
  log.foldl (fun file m => (appendLog none m file).2) file

/-- A message that an append takes, signed where signatures count. -/
structure Written (session : SessionId) (verify : Bool) (m : SessionMessage) : Prop where
  taken : (appendLog none m []).1 = .ok ()
  signed : verify = true → Signing.verifyMessage ed session m m.signature = .ok ()

section Damage

variable {ed} {session : SessionId} {verify : Bool} {log : List SessionMessage}

theorem Written.length_le {m : SessionMessage} (h : Written ed session verify m) :
    (encodeMessage m).length ≤ MAX_FRAME_SIZE := by
  by_contra hlarge
  have htaken := h.taken
  rw [appendLog, if_pos (Nat.lt_of_not_le hlarge)] at htaken
  cases htaken

theorem afterAppends_eq (file : Bytes) (h : ∀ m ∈ log, Written ed session verify m) :
    afterAppends file log = file ++ encodeLog log := by
  induction log generalizing file with
  | nil => exact (append_nil file).symm
  | cons m log ih =>
    have hle := (h m mem_cons_self).length_le
    have hm : (appendLog none m file).2 = file ++ frame (encodeMessage m) := by
      rw [appendLog, if_neg (Nat.not_lt.mpr hle)]
    have hlog := ih (file ++ frame (encodeMessage m)) fun x hx => h x (mem_cons_of_mem m hx)
    rw [afterAppends, foldl_cons, hm]
    exact hlog.trans (append_assoc ..)

theorem readLog_afterAppends (h : ∀ m ∈ log, Written ed session verify m) :
    readLog ed session verify (afterAppends [] log) = (log, afterAppends [] log) := by
  rw [afterAppends_eq [] h, nil_append]
  exact readLog_encodeLog ed session verify log (fun m hm => (h m hm).length_le)
    fun hv m hm => (h m hm).signed hv

theorem filterMap_written (h : ∀ m ∈ log, Written ed session verify m) :
    (log.map encodeMessage).filterMap (readFrame ed session verify) = log :=
  filterMap_readFrame ed session verify log fun m hm =>
    readFrame_encodeMessage ed session verify m (h m hm).length_le (h m hm).signed

/-- A cut loses the frames it does not leave whole, other damage one message. -/
theorem readLog_of_damage (h : ∀ m ∈ log, Written ed session verify m) :
    (∀ cut, ∃ kept lost, log = kept ++ lost ∧ (encodeLog kept).length ≤ cut ∧
      (∀ m ∈ lost.head?, cut < (encodeLog (kept ++ [m])).length) ∧
      readLog ed session verify ((afterAppends [] log).take cut) = (kept, encodeLog kept) ∧
      readLog ed session verify (encodeLog kept) = (kept, encodeLog kept) ∧
      ∀ more, (∀ m ∈ more, Written ed session verify m) →
        (readLog ed session verify (afterAppends (encodeLog kept) more)).1 = kept ++ more) ∧
    ∀ before m after p, log = before ++ m :: after → p.length = (encodeMessage m).length →
      (readLog ed session verify (encodeLog before ++
        (toBeBytes 4 (encodeMessage m).length ++ p) ++ encodeLog after)).1 =
          before ++ (readFrame ed session verify p).toList ++ after := by
  refine ⟨fun cut => ?_, ?_⟩
  · have hfile : afterAppends [] log = frames (log.map encodeMessage) := afterAppends_eq [] h
    obtain ⟨_, _, tail, heq, hf, hle, hlt⟩ := framed_take max_frame_lt (log.map encodeMessage) cut
      (by simpa using fun m hm => (h m hm).length_le)
    obtain ⟨kept, lost, rfl, rfl, rfl⟩ := map_eq_append_iff.mp heq
    have hkept : ∀ m ∈ kept, Written ed session verify m := fun m hm => h m (mem_append_left _ hm)
    have happend : afterAppends [] kept = encodeLog kept := afterAppends_eq [] hkept
    refine ⟨kept, lost, rfl, hle, fun m hm => ?_, ?_, happend ▸ readLog_afterAppends hkept, ?_⟩
    · have hcut := hlt (encodeMessage m) (by simp [Option.mem_def.mp hm])
      simpa [encodeLog] using hcut
    · rw [hfile, readLog_framed ed session verify hf, filterMap_written hkept, encodeLog]
    · intro more hmore
      have hall : ∀ m ∈ kept ++ more, Written ed session verify m :=
        fun m hm => (mem_append.mp hm).elim (hkept m) (hmore m)
      rw [← happend, afterAppends, afterAppends, ← foldl_append]
      exact congrArg Prod.fst (readLog_afterAppends hall)
  · rintro before m after p rfl hlen
    have hframed : Framed MAX_FRAME_SIZE (encodeLog before ++
        (toBeBytes 4 (encodeMessage m).length ++ p) ++ encodeLog after)
        (before.map encodeMessage ++ p :: after.map encodeMessage) [] := by
      refine ⟨?_, ?_, torn_nil _⟩
      · rw [← hlen]
        simp [encodeLog, frames, frame]
      · simp only [mem_append, mem_cons, mem_map]
        have hle : ∀ x ∈ before ++ m :: after, (encodeMessage x).length ≤ MAX_FRAME_SIZE :=
          fun x hx => (h x hx).length_le
        rintro q (⟨x, hx, rfl⟩ | rfl | ⟨x, hx, rfl⟩)
        · exact hle x (by simp [hx])
        · exact hlen ▸ hle m (by simp)
        · exact hle x (by simp [hx])
    have hbefore := filterMap_written fun x hx => h x (mem_append_left _ hx)
    have hafter := filterMap_written fun x hx => h x (mem_append_right _ (mem_cons_of_mem m hx))
    rw [readLog_framed ed session verify hframed, filterMap_append, hbefore]
    cases hread : readFrame ed session verify p with
    | none => simp [filterMap_cons_none hread, hafter]
    | some x => simp [filterMap_cons_some hread, hafter]

theorem readLog_of_damage_one : ∃ kept lost, [Sample.message 0 1 .chat "" []] = kept ++ lost ∧
    readLog .checksum Sample.session true
      ((afterAppends [] [Sample.message 0 1 .chat "" []]).take 9) = (kept, encodeLog kept) := by
  have h : ∀ m ∈ [Sample.message 0 1 .chat "" []], Written .checksum Sample.session true m := by
    simpa using ⟨by decide +kernel, fun _ => Sample.verify_message ..⟩
  obtain ⟨kept, lost, heq, -, -, hread, -⟩ := (readLog_of_damage h).1 9
  exact ⟨kept, lost, heq, hread⟩

end Damage

end Artel.Store
