import Artel.Lib.Run
import Artel.Store.Fs

namespace Artel.Store.Durability

open Frames List

/-- What happens to one session directory while daemons come and go. -/
inductive Op
  | append (m : SessionMessage) (fault : Option AppendFault)
  | load

structure State where
  disk : Disk
  /-- The messages whose append returned `Ok`. -/
  acked : List SessionMessage

variable (ed : Ed25519) (id : SessionId) (verify : Bool)

def step (s : State) : Op → State
  | .append m fault =>
    match append fault m s.disk with
    | (.ok _, disk) => ⟨disk, s.acked ++ [m]⟩
    | (.error _, disk) => ⟨disk, s.acked⟩
  | .load => ⟨(load ed id verify s.disk).2, s.acked⟩

/-- An append finds no torn write of an earlier one at the end of the log. -/
def LogWhole (s : State) : Op → Prop
  | .append _ _ => (scan MAX_FRAME_SIZE s.disk.logBytes).2 = s.disk.logBytes.length
  | .load => True

def Signed : Op → Prop
  | .append m _ => verify = true → Signing.verifyMessage ed id m m.signature = .ok ()
  | .load => True

def Kept (s : State) : Prop :=
  ∃ ps tail, Framed MAX_FRAME_SIZE s.disk.logBytes ps tail ∧
    ∀ m ∈ s.acked, readFrame ed id verify (encodeMessage m) = some m ∧ encodeMessage m ∈ ps

theorem kept_start (disk : Disk) : Kept ed id verify ⟨disk, []⟩ :=
  ⟨_, _, framed_scan MAX_FRAME_SIZE disk.logBytes, by simp⟩

theorem kept_load (s : State) (h : Kept ed id verify s) :
    Kept ed id verify (step ed id verify s .load) := by
  obtain ⟨ps, tail, hf, hacked⟩ := h
  obtain heq | heq := load_logBytes ed id verify s.disk
  · exact ⟨ps, tail, by rwa [step, heq], hacked⟩
  · refine ⟨ps, [], ?_, hacked⟩
    have htake : s.disk.logBytes.take (scan MAX_FRAME_SIZE s.disk.logBytes).2 = frames ps := by
      rw [take_scan, hf.scan_eq max_frame_lt]
    rw [step, heq, htake]
    exact hf.truncate

theorem kept_append (s : State) (m : SessionMessage) (fault : Option AppendFault)
    (h : Kept ed id verify s) (hw : LogWhole s (.append m fault))
    (hs : Signed ed id verify (.append m fault)) :
    Kept ed id verify (step ed id verify s (.append m fault)) := by
  obtain ⟨ps, tail, hf, hacked⟩ := h
  -- the guard leaves no torn rest behind the complete frames
  have htail : tail = [] := by
    have hlen := congrArg List.length hf.eq_append
    rw [LogWhole, hf.scan_eq max_frame_lt] at hw
    rw [← hw, length_append] at hlen
    exact length_eq_zero_iff.mp (by omega)
  subst htail
  have hframed := append_framed fault m hf
  rcases happ : append fault m s.disk with ⟨e | _, disk⟩ <;> rw [happ] at hframed <;>
    simp only [step, happ]
  · obtain ⟨-, rest, -, hf'⟩ | ⟨-, hf'⟩ := hframed
    · exact ⟨ps, rest, hf', hacked⟩
    · refine ⟨ps ++ [encodeMessage m], [], hf', fun x hx => ?_⟩
      exact ⟨(hacked x hx).1, mem_append_left _ (hacked x hx).2⟩
  · obtain ⟨_, _, he, -⟩ | ⟨hsize, hf'⟩ := hframed
    · cases he
    · refine ⟨ps ++ [encodeMessage m], [], hf', fun x hx => ?_⟩
      obtain hx | hx := mem_append.mp hx
      · exact ⟨(hacked x hx).1, mem_append_left _ (hacked x hx).2⟩
      · rw [mem_singleton.mp hx]
        exact ⟨readFrame_encodeMessage ed id verify m hsize hs, by simp⟩

/-- Without an append behind a torn write, acknowledged messages are loaded. -/
theorem acked_mem_readLog (disk : Disk) (ops : List Op) (hsigned : ∀ o ∈ ops, Signed ed id verify o)
    (hwhole : Along (step ed id verify) LogWhole ⟨disk, []⟩ ops) :
    ∀ m ∈ (ops.foldl (step ed id verify) ⟨disk, []⟩).acked,
      m ∈ (readLog ed id verify (ops.foldl (step ed id verify) ⟨disk, []⟩).disk.logBytes).1 := by
  have hstep : ∀ s o, Kept ed id verify s → LogWhole s o ∧ Signed ed id verify o →
      Kept ed id verify (step ed id verify s o) := by
    rintro s (⟨m, fault⟩ | _) hk ⟨hw, hs⟩
    · exact kept_append ed id verify s m fault hk hw hs
    · exact kept_load ed id verify s hk
  obtain ⟨ps, tail, hf, hacked⟩ :=
    (hwhole.and_of_mem hsigned).invariant hstep (kept_start ed id verify disk)
  intro m hm
  obtain ⟨hread, hmem⟩ := hacked m hm
  rw [readLog, hf.scan_eq max_frame_lt]
  exact mem_filterMap.mpr ⟨_, hmem, hread⟩

def long : SessionMessage := Sample.message 0 1 .chat "" (List.replicate 300 0)

def short : SessionMessage := Sample.message 0 1 .chat "" []

def created : Disk :=
  (create ⟨Sample.session, Sample.peer 0, {Sample.peer 0}, Seq.ZERO, [], .Local, 0, [], none⟩
    ⟨none, none⟩).2

def run (ops : List Op) : State := ops.foldl (step .checksum Sample.session true) ⟨created, []⟩

/-- The append that fails after its header swallows the one acknowledged after it. -/
theorem torn_append_loses_acked :
    short ∈ (run [.append long (some (.log 4)), .append short none]).acked ∧
      Signing.verifyMessage .checksum Sample.session short short.signature = .ok () ∧
      short ∉ (readLog .checksum Sample.session true
        (run [.append long (some (.log 4)), .append short none]).disk.logBytes).1 := by
  have hlog : (run [.append long (some (.log 4)), .append short none]).disk.logBytes =
      (frame (encodeMessage long)).take 4 ++ frame (encodeMessage short) := by decide +kernel
  have htorn : Torn MAX_FRAME_SIZE
      ((frame (encodeMessage long)).take 4 ++ frame (encodeMessage short)) :=
    torn_header_append _ _ _ (by decide +kernel) (by decide +kernel)
  refine ⟨by decide +kernel, Sample.verify_message _ _ _ _ _, ?_⟩
  rw [hlog, readLog, htorn]
  exact not_mem_nil

/-- An acknowledged append, then one that fails and the load that cuts it off. -/
theorem acked_mem_readLog_torn :
    short ∈ (readLog .checksum Sample.session true
      (run [.append short none, .append long (some (.log 4)), .load]).disk.logBytes).1 := by
  have hfirst : Framed MAX_FRAME_SIZE (frame (encodeMessage short)) [encodeMessage short] [] :=
    (Framed.nil MAX_FRAME_SIZE).append _ (by decide +kernel)
  have hempty : created.logBytes = [] := by decide +kernel
  have hlog : (step .checksum Sample.session true ⟨created, []⟩ (.append short none)).disk.logBytes =
      frame (encodeMessage short) := by decide +kernel
  refine acked_mem_readLog .checksum Sample.session true created
    [.append short none, .append long (some (.log 4)), .load] ?_ ⟨?_, ?_, trivial, trivial⟩ short ?_
  · intro o ho
    simp only [mem_cons, not_mem_nil, or_false] at ho
    obtain rfl | rfl | rfl := ho
    · exact fun _ => Sample.verify_message _ _ _ _ _
    · exact fun _ => Sample.verify_message _ _ _ _ _
    · trivial
  · rw [LogWhole, hempty]
    exact (Framed.nil MAX_FRAME_SIZE).scan_eq_length max_frame_lt
  · rw [LogWhole, hlog]
    exact hfirst.scan_eq_length max_frame_lt
  · decide +kernel

end Artel.Store.Durability
