import Mathlib.Data.List.Dedup
import Mathlib.Data.List.MinMax
import Mathlib.Data.List.Sort
import Artel.Lib.Wire

namespace Artel

open List

/-- The content of an entry, which is never empty. -/
structure Replica.Content (η : Type) where
  hash : η
  len : ℕ
  pos : 0 < len
  deriving DecidableEq

/-- What an author wrote under a key; a tombstone has no content. -/
structure Replica.Entry (α η : Type) where
  author : α
  key : Bytes
  content : Option (Replica.Content η)
  timestamp : ℕ
  deriving DecidableEq

/-- A document that several authors write to, with at most one entry an author and key. -/
structure Replica (α η : Type) where
  entries : List (Replica.Entry α η)
  /-- The timestamp of the next insertion. -/
  clock : ℕ

namespace Replica

variable {α η : Type}

def empty : Replica α η := ⟨[], 0⟩

def insert (r : Replica α η) (author : α) (key : Bytes) (content : Option (Content η)) :
    Replica α η :=
  ⟨r.entries ++ [⟨author, key, content, r.clock⟩], r.clock + 1⟩

/-- The latest entry of a key, whoever wrote it. -/
def latest (r : Replica α η) (key : Bytes) : Option (Entry α η) :=
  (r.entries.filter (·.key = key)).argmax Entry.timestamp

def keys (r : Replica α η) : List Bytes :=
  (r.entries.map Entry.key).dedup.insertionSort (· ≤ ·)

/-- The latest entries in ascending order of their keys, tombstones included. -/
def latestPerKey (r : Replica α η) : List (Entry α η) := r.keys.filterMap r.latest

section

variable [DecidableEq α]

def setHash (r : Replica α η) (author : α) (key : Bytes) (content : Content η) : Replica α η :=
  let kept := r.entries.filter fun e => ¬(e.author = author ∧ e.key = key)
  insert ⟨kept, r.clock⟩ author key (some content)

/-- A deletion also removes what its author has under keys that begin with the key. -/
def del (r : Replica α η) (author : α) (key : Bytes) : Replica α η :=
  let kept := r.entries.filter fun e => ¬(e.author = author ∧ key <+: e.key)
  insert ⟨kept, r.clock⟩ author key none

/-- An entry that arrives is taken unless its author has one that is as late at its key. -/
def accepts (r : Replica α η) (e : Entry α η) : Bool :=
  r.entries.all fun e' =>
    decide (e'.author = e.author → e'.key = e.key → e'.timestamp < e.timestamp)

def store (r : Replica α η) (e : Entry α η) : Replica α η :=
  { r with entries := (r.entries.filter fun e' => ¬(e'.author = e.author ∧ e'.key = e.key)) ++ [e] }

/-- An entry is set, or a deletion is made where it has no content. -/
def put (r : Replica α η) (author : α) (key : Bytes) : Option (Content η) → Replica α η
  | some content => r.setHash author key content
  | none => r.del author key

end

variable {r : Replica α η} {key : Bytes} {e : Entry α η}

theorem mem_of_latest (h : r.latest key = some e) : e ∈ r.entries ∧ e.key = key := by
  have hmem := argmax_mem h
  simpa using hmem

theorem not_prefix_of_lt {key other : Bytes} (h : key < other) : ¬other <+: key := fun hprefix =>
  List.not_lt.mpr hprefix.le h

theorem mem_keys : key ∈ r.keys ↔ ∃ e ∈ r.entries, e.key = key := by
  simp [keys]

theorem keys_ascending (r : Replica α η) : r.keys.Pairwise (· < ·) := by
  have hle : r.keys.Pairwise (· ≤ ·) := pairwise_insertionSort _ _
  have hnodup : r.keys.Nodup := (perm_insertionSort _ _).nodup_iff.mpr (nodup_dedup _)
  refine (hle.and hnodup).imp fun {a b} hab => ?_
  exact List.not_le.mp fun hba => hab.2 (List.le_antisymm hab.1 hba)

theorem mem_latestPerKey : e ∈ r.latestPerKey ↔ r.latest e.key = some e := by
  simp only [latestPerKey, mem_filterMap]
  constructor
  · rintro ⟨key, -, hkey⟩
    rwa [(mem_of_latest hkey).2]
  · intro he
    exact ⟨e.key, mem_keys.mpr ⟨e, (mem_of_latest he).1, rfl⟩, he⟩

theorem latestPerKey_ascending (r : Replica α η) :
    r.latestPerKey.Pairwise fun e e' => e.key < e'.key := by
  refine pairwise_filterMap.mpr (r.keys_ascending.imp fun {a b} hab e he e' he' => ?_)
  rwa [(mem_of_latest he).2, (mem_of_latest he').2]

theorem latest_eq_of_mem (hnodup : (r.entries.map Entry.key).Nodup) (he : e ∈ r.entries) :
    r.latest e.key = some e := by
  cases hlatest : r.latest e.key with
  | none =>
    have hnone : r.entries.filter (·.key = e.key) = [] := argmax_eq_none.mp hlatest
    have hin : e ∈ r.entries.filter (·.key = e.key) := by simp [he]
    simp [hnone] at hin
  | some a =>
    obtain ⟨ha, hkey⟩ := mem_of_latest hlatest
    exact congrArg some (inj_on_of_nodup_map hnodup ha he hkey)

section

variable [DecidableEq α] {author : α} {content : Option (Content η)}

theorem put_of_fresh (h : ∀ e ∈ r.entries, ¬key <+: e.key) :
    r.put author key content = r.insert author key content := by
  cases content with
  | none =>
    have hkept : (r.entries.filter fun e => ¬(e.author = author ∧ key <+: e.key)) = r.entries :=
      filter_eq_self.mpr fun e he => by simp [h e he]
    simp only [put, del, hkept]
  | some content =>
    have hne : ∀ e ∈ r.entries, e.key ≠ key := fun e he heq => h e he (heq ▸ prefix_rfl)
    have hkept : (r.entries.filter fun e => ¬(e.author = author ∧ e.key = key)) = r.entries :=
      filter_eq_self.mpr fun e he => by simp [hne e he]
    simp only [put, setHash, hkept]

theorem foldl_put {puts : List (Bytes × Option (Content η))}
    (hfresh : ∀ e ∈ r.entries, ∀ p ∈ puts, ¬p.1 <+: e.key)
    (hputs : puts.Pairwise fun p q => ¬q.1 <+: p.1) :
    (puts.foldl (fun r p => r.put author p.1 p.2) r).entries.map (fun e => (e.key, e.content)) =
      r.entries.map (fun e => (e.key, e.content)) ++ puts := by
  induction puts generalizing r with
  | nil => simp
  | cons p puts ih =>
    obtain ⟨hfirst, hrest⟩ := pairwise_cons.mp hputs
    have hput : r.put author p.1 p.2 = r.insert author p.1 p.2 :=
      put_of_fresh fun e he => hfresh e he p mem_cons_self
    rw [foldl_cons, ih (fun e he q hq => ?_) hrest]
    · simp [hput, Replica.insert]
    · rw [hput] at he
      obtain he | he := mem_append.mp he
      · exact hfresh e he q (mem_cons_of_mem p hq)
      · rw [mem_singleton.mp he]
        exact hfirst q hq

theorem mem_put (h : e ∈ (r.put author key content).entries) : e ∈ r.entries ∨ e.author = author := by
  cases content with
  | none | some content =>
    obtain he | he := mem_append.mp h
    · exact .inl (mem_filter.mp he).1
    · exact .inr (by rw [mem_singleton.mp he])

theorem mem_foldl_put {puts : List (Bytes × Option (Content η))}
    (h : e ∈ (puts.foldl (fun r p => r.put author p.1 p.2) r).entries) :
    e ∈ r.entries ∨ e.author = author := by
  induction puts generalizing r with
  | nil => exact .inl h
  | cons p puts ih =>
    obtain he | he := ih h
    · exact mem_put he
    · exact .inr he

def Timed (r : Replica α η) : Prop := ∀ e ∈ r.entries, e.timestamp < r.clock

theorem Timed.empty : (empty : Replica α η).Timed := nofun

theorem Timed.insert (h : r.Timed) : (r.insert author key content).Timed := by
  intro e he
  obtain he | he := mem_append.mp he
  · exact (h e he).trans (Nat.lt_succ_self _)
  · rw [mem_singleton.mp he]
    exact Nat.lt_succ_self _

theorem Timed.put (h : r.Timed) : (r.put author key content).Timed := by
  cases content with
  | none | some content =>
    refine Timed.insert fun e he => h e ?_
    exact (mem_filter.mp he).1

theorem latest_insert_of_ne {other : Bytes} (h : other ≠ key) :
    (r.insert author key content).latest other = r.latest other := by
  simp [latest, Replica.insert, h.symm]

theorem latest_setHash_of_ne {content : Content η} {other : Bytes} (h : other ≠ key) :
    (r.setHash author key content).latest other = r.latest other := by
  rw [setHash, latest_insert_of_ne h, latest, latest, filter_filter]
  congr 1
  refine filter_congr fun e _ => ?_
  by_cases hkey : e.key = other
  · simp [hkey, h]
  · simp [hkey]

theorem Timed.latest_insert (h : r.Timed) :
    (r.insert author key content).latest key = some ⟨author, key, content, r.clock⟩ := by
  have hentries : (r.insert author key content).entries.filter (·.key = key) =
      r.entries.filter (·.key = key) ++ [⟨author, key, content, r.clock⟩] := by
    simp [Replica.insert]
  rw [latest, hentries, argmax_concat]
  cases he : (r.entries.filter (·.key = key)).argmax Entry.timestamp with
  | none => rfl
  | some e =>
    have hentry : e ∈ r.entries := (mem_filter.mp (argmax_mem he)).1
    exact if_pos (h e hentry)

theorem Timed.latest_setHash (h : r.Timed) {content : Content η} :
    (r.setHash author key content).latest key = some ⟨author, key, some content, r.clock⟩ :=
  Timed.latest_insert fun e he => h e (mem_filter.mp he).1

theorem Timed.foldl_put (h : r.Timed) (puts : List (Bytes × Option (Content η))) :
    (puts.foldl (fun r p => r.put author p.1 p.2) r).Timed := by
  induction puts generalizing r with
  | nil => exact h
  | cons p puts ih => exact ih h.put

theorem latest_foldl_setHash_of_ne {puts : List (Bytes × Content η)} (h : ∀ p ∈ puts, p.1 ≠ key) :
    (puts.foldl (fun r p => r.setHash author p.1 p.2) r).latest key = r.latest key := by
  induction puts generalizing r with
  | nil => rfl
  | cons p puts ih =>
    rw [foldl_cons, ih fun q hq => h q (mem_cons_of_mem p hq)]
    exact latest_setHash_of_ne (h p mem_cons_self).symm

theorem Timed.latest_foldl_setHash (h : r.Timed) {puts : List (Bytes × Content η)}
    (hkey : ∃ p ∈ puts, p.1 = key) :
    ∃ e content, (puts.foldl (fun r p => r.setHash author p.1 p.2) r).latest key = some e ∧
      e.content = some content ∧ (key, content) ∈ puts := by
  induction puts generalizing r with
  | nil => simp at hkey
  | cons p puts ih =>
    rw [foldl_cons]
    by_cases hlater : ∃ q ∈ puts, q.1 = key
    · have hset : (r.put author p.1 (some p.2)).Timed := h.put
      obtain ⟨e, content, he, hcontent, hin⟩ := ih hset hlater
      exact ⟨e, content, he, hcontent, mem_cons_of_mem p hin⟩
    · obtain ⟨q, hq, rfl⟩ := hkey
      obtain rfl | hq := mem_cons.mp hq
      · refine ⟨⟨author, q.1, some q.2, r.clock⟩, q.2, ?_, rfl, mem_cons_self⟩
        rw [latest_foldl_setHash_of_ne fun p' hp' heq => hlater ⟨p', hp', heq⟩, h.latest_setHash]
      · exact absurd ⟨q, hq, rfl⟩ hlater

end

theorem argmax_filter_of_argmax {β : Type} {f : β → ℕ} {p : β → Bool} {l : List β} {b : β}
    (h : l.argmax f = some b) (hb : p b = true) : (l.filter p).argmax f = some b := by
  induction l using List.reverseRecOn generalizing b with
  | nil => simp at h
  | append_singleton l a ih =>
    rw [argmax_concat] at h
    cases hl : l.argmax f with
    | none =>
      obtain rfl : a = b := by simpa [hl] using h
      simp [argmax_eq_none.mp hl, hb]
    | some c =>
      simp only [hl] at h
      split at h
      · rename_i hlt
        obtain rfl := Option.some.inj h
        rw [filter_append, filter_singleton, hb, cond_true, argmax_concat]
        cases hkept : (l.filter p).argmax f with
        | none => rfl
        | some d =>
          have hd : d ∈ l := (mem_filter.mp (argmax_mem hkept)).1
          exact if_pos ((le_of_mem_argmax hd hl).trans_lt hlt)
      · rename_i hge
        obtain rfl := Option.some.inj h
        rw [filter_append, filter_singleton]
        cases p a with
        | true =>
          rw [cond_true, argmax_concat, ih hl hb]
          exact if_neg hge
        | false =>
          rw [cond_false, append_nil]
          exact ih hl hb

section

variable [DecidableEq α] {author : α}

theorem filter_key_del (other : Bytes) :
    (r.del author key).entries.filter (·.key = other) =
      ((r.entries.filter (·.key = other)).filter fun e => ¬(e.author = author ∧ key <+: e.key)) ++
        if key = other then [⟨author, key, none, r.clock⟩] else [] := by
  simp only [del, Replica.insert, filter_append, filter_filter]
  congr 1
  · exact filter_congr fun e _ => Bool.and_comm ..
  · split <;> rename_i h <;> simp [h]

theorem latest_del_eq (other : Bytes) (h : other ≠ key) :
    (r.del author key).latest other =
      ((r.entries.filter (·.key = other)).filter
        fun e => ¬(e.author = author ∧ key <+: e.key)).argmax Entry.timestamp := by
  rw [latest, filter_key_del, if_neg h.symm, append_nil]

variable {other : Bytes}

/-- A deletion changes another key's latest entry exactly if it removes it. -/
theorem latest_del_ne_iff (h : other ≠ key) :
    (r.del author key).latest other ≠ r.latest other ↔
      ∃ e, r.latest other = some e ∧ e.author = author ∧ key <+: e.key := by
  rw [latest_del_eq other h]
  cases hlatest : r.latest other with
  | none =>
    have hnil : r.entries.filter (·.key = other) = [] := argmax_eq_none.mp hlatest
    simp [hnil]
  | some e =>
    by_cases hremoved : e.author = author ∧ key <+: e.key
    · refine iff_of_true (fun hsame => ?_) ⟨e, rfl, hremoved⟩
      have hkept := (mem_filter.mp (argmax_mem hsame)).2
      simp [hremoved] at hkept
    have hsame := argmax_filter_of_argmax
      (p := fun e => ¬(e.author = author ∧ key <+: e.key))
      hlatest (decide_eq_true hremoved)
    refine iff_of_false (fun hne => hne hsame) ?_
    rintro ⟨e', he', hremoved'⟩
    obtain rfl := Option.some.inj he'
    exact hremoved hremoved'

theorem latest_del_self (h : ∀ e, r.latest key = some e → e.timestamp < r.clock) :
    (r.del author key).latest key = some ⟨author, key, none, r.clock⟩ := by
  rw [latest, filter_key_del, if_pos rfl, argmax_concat]
  cases hkept : List.argmax Entry.timestamp ((r.entries.filter (·.key = key)).filter
      fun e => ¬(e.author = author ∧ key <+: e.key)) with
  | none => rfl
  | some c =>
    have hc : c ∈ r.entries.filter (·.key = key) := (mem_filter.mp (argmax_mem hkept)).1
    obtain ⟨e, he⟩ : ∃ e, r.latest key = some e := by
      refine Option.ne_none_iff_exists'.mp fun hnone => ?_
      have hnil : r.entries.filter (·.key = key) = [] := argmax_eq_none.mp hnone
      simp [hnil] at hc
    exact if_pos ((le_of_mem_argmax hc he).trans_lt (h e he))

theorem latest_foldl_del {keys : List Bytes} (h : other ∉ keys) :
    (keys.foldl (fun r key => r.del author key) r).latest other =
      ((r.entries.filter (·.key = other)).filter
        fun e => ¬(e.author = author ∧ ∃ key ∈ keys, key <+: e.key)).argmax Entry.timestamp := by
  induction keys generalizing r with
  | nil => simp [latest]
  | cons key keys ih =>
    obtain ⟨hne, hrest⟩ : other ≠ key ∧ other ∉ keys := by simpa using h
    rw [foldl_cons, ih hrest, filter_key_del, if_neg hne.symm, append_nil,
      filter_filter]
    congr 1
    refine filter_congr fun e _ => ?_
    simp only [mem_cons, exists_eq_or_imp]
    by_cases hauthor : e.author = author <;> simp [hauthor, Bool.and_comm]

theorem Timed.latest_foldl_del (h : r.Timed) {keys : List Bytes} (hkeys : keys.Pairwise (· < ·))
    (hin : key ∈ keys) :
    ∃ e, (keys.foldl (fun r key => r.del author key) r).latest key = some e ∧ e.content = none := by
  induction keys generalizing r with
  | nil => cases hin
  | cons first keys ih =>
    obtain ⟨hfirst, hrest⟩ := pairwise_cons.mp hkeys
    have htimed : (r.put author first none).Timed := h.put
    obtain rfl | hin := mem_cons.mp hin
    · refine ⟨⟨author, key, none, r.clock⟩, ?_, rfl⟩
      have hself : (r.del author key).latest key = some ⟨author, key, none, r.clock⟩ :=
        latest_del_self fun e he => h e (mem_of_latest he).1
      rw [List.foldl_cons, Replica.latest_foldl_del fun hkey => List.lt_irrefl key (hfirst key hkey)]
      -- the keys that follow are larger, so none of them begins this one
      refine argmax_filter_of_argmax hself (decide_eq_true ?_)
      rintro ⟨-, later, hlater, hbegins⟩
      exact not_prefix_of_lt (hfirst later hlater) hbegins
    · exact ih htimed hrest hin

/-- What an author wrote to a key last. -/
def own (r : Replica α η) (author : α) (key : Bytes) : Option (Entry α η) :=
  (r.entries.filter fun e => e.author = author ∧ e.key = key).argmax Entry.timestamp

theorem own_insert_self {content : Option (Content η)}
    (h : ∀ e ∈ r.entries, ¬(e.author = author ∧ e.key = key)) :
    (r.insert author key content).own author key = some ⟨author, key, content, r.clock⟩ := by
  have hnone : (r.entries.filter fun e => e.author = author ∧ e.key = key) = [] :=
    filter_eq_nil_iff.mpr fun e he => by simpa using h e he
  rw [own, Replica.insert, filter_append, hnone]
  simp

theorem own_setHash_self {content : Content η} :
    (r.setHash author key content).own author key = some ⟨author, key, some content, r.clock⟩ :=
  own_insert_self fun _ he => of_decide_eq_true (mem_filter.mp he).2

theorem own_del_self :
    (r.del author key).own author key = some ⟨author, key, none, r.clock⟩ := by
  refine own_insert_self fun e he => ?_
  have hkept := of_decide_eq_true (mem_filter.mp he).2
  exact fun hown => hkept ⟨hown.1, hown.2 ▸ prefix_rfl⟩

theorem own_filter {kept : Entry α η → Bool}
    (h : ∀ e, e.author = author → e.key = other → kept e = true) (clock : ℕ) :
    own ⟨r.entries.filter kept, clock⟩ author other = r.own author other := by
  simp only [own, filter_filter]
  congr 1
  refine filter_congr fun e _ => ?_
  by_cases hown : e.author = author ∧ e.key = other
  · simp [hown, h e hown.1 hown.2]
  · simp [hown]

theorem own_insert_of_ne {content : Option (Content η)} (h : other ≠ key) :
    (r.insert author key content).own author other = r.own author other := by
  simp [own, Replica.insert, h.symm]

theorem own_setHash_of_ne {content : Content η} (h : other ≠ key) :
    (r.setHash author key content).own author other = r.own author other := by
  rw [setHash, own_insert_of_ne h]
  refine own_filter (fun e _ hkey => ?_) _
  simp [hkey, h]

theorem own_del_of_not_prefix (h : ¬key <+: other) :
    (r.del author key).own author other = r.own author other := by
  have hne : other ≠ key := fun heq => h (heq ▸ prefix_rfl)
  rw [del, own_insert_of_ne hne]
  refine own_filter (fun e _ hkey => ?_) _
  simp [hkey, h]

theorem own_store_of_ne (h : e.author ≠ author) :
    (r.store e).own author other = r.own author other := by
  have hfilter : own ⟨r.entries.filter fun e' => ¬(e'.author = e.author ∧ e'.key = e.key), r.clock⟩
      author other = r.own author other := by
    refine own_filter (fun e' hauthor _ => ?_) _
    simp [hauthor, h.symm]
  rw [← hfilter]
  simp [own, store, h]

theorem accepts_iff : r.accepts e = true ↔
    ∀ e' ∈ r.entries, e'.author = e.author → e'.key = e.key → e'.timestamp < e.timestamp := by
  simp only [accepts, all_eq_true, decide_eq_true_eq]

theorem mem_store {e' : Entry α η} : e' ∈ (r.store e).entries ↔
    (e' ∈ r.entries ∧ ¬(e'.author = e.author ∧ e'.key = e.key)) ∨ e' = e := by
  simp only [store, mem_append, mem_filter, decide_eq_true_eq, mem_singleton]

/-- An entry that is stored becomes the latest of its key, or the latest stays what it is. -/
theorem latest_store {x : Entry α η} (haccepts : r.accepts e = true)
    (h : (r.store e).latest key = some x) : x = e ∨ r.latest key = some x := by
  have hentries : (r.store e).entries.filter (·.key = key) =
      ((r.entries.filter (·.key = key)).filter
        fun e' => ¬(e'.author = e.author ∧ e'.key = e.key)) ++ [e].filter (·.key = key) := by
    simp only [store, filter_append, filter_filter]
    congr 1
    exact filter_congr fun e _ => Bool.and_comm ..
  rw [or_iff_not_imp_left]
  intro hne
  rw [latest, hentries] at h
  have hold : x ∈ (r.entries.filter (·.key = key)).filter
      fun e' => ¬(e'.author = e.author ∧ e'.key = e.key) := by
    refine (mem_append.mp (argmax_mem h)).resolve_right fun hsingle => hne ?_
    exact mem_singleton.mp (mem_filter.mp hsingle).1
  obtain ⟨y, hy⟩ : ∃ y, r.latest key = some y := by
    refine Option.ne_none_iff_exists'.mp fun hnone => ?_
    rw [latest, argmax_eq_none] at hnone
    simp [hnone] at hold
  have hxy : x.timestamp ≤ y.timestamp := le_of_mem_argmax (mem_filter.mp hold).1 hy
  -- the old latest entry is not replaced, or the new one would be later than it
  have hkept : ¬(y.author = e.author ∧ y.key = e.key) := by
    rintro ⟨hauthor, hkey⟩
    obtain ⟨hyin, hykey⟩ := mem_of_latest hy
    have hlt := accepts_iff.mp haccepts y hyin hauthor hkey
    have hle : e.timestamp ≤ x.timestamp := by
      refine le_of_mem_argmax (mem_append_right _ ?_) h
      exact mem_filter.mpr
        ⟨mem_singleton_self e, decide_eq_true (hkey.symm.trans hykey)⟩
    omega
  have hy' := argmax_filter_of_argmax (p := fun e' => ¬(e'.author = e.author ∧ e'.key = e.key))
    hy (decide_eq_true hkept)
  by_cases hkey : e.key = key
  · rw [filter_singleton, decide_eq_true hkey, cond_true, argmax_concat, hy'] at h
    dsimp only at h
    split at h
    · exact absurd (Option.some.inj h).symm hne
    · exact hy.trans h
  · rw [filter_singleton, decide_eq_false hkey, cond_false, append_nil, hy'] at h
    exact hy.trans h

/-- The author wrote the latest entry of a longer key that begins with the key. -/
def Covers (r : Replica α η) (author : α) (key : Bytes) : Prop :=
  ∃ e, r.latest e.key = some e ∧ e.author = author ∧ key <+: e.key ∧ e.key ≠ key

theorem del_frame_iff :
    (∀ other, (r.del author key).latest other ≠ r.latest other → other = key) ↔
      ¬r.Covers author key := by
  constructor
  · rintro hframe ⟨e, he, hauthor, hbegins, hne⟩
    exact hne (hframe e.key ((latest_del_ne_iff hne).mpr ⟨e, he, hauthor, hbegins⟩))
  · intro hcovers other hchanged
    by_contra hne
    obtain ⟨e, he, hauthor, hbegins⟩ := (latest_del_ne_iff hne).mp hchanged
    obtain rfl := (mem_of_latest he).2
    exact hcovers ⟨e, he, hauthor, hbegins, hne⟩

/-- Past the key's latest entry, the deletion changes that key alone unless it covers another. -/
theorem del_changes_iff (h : ∀ e, r.latest key = some e → e.timestamp < r.clock) :
    (∀ other, (r.del author key).latest other ≠ r.latest other ↔ other = key) ↔
      ¬r.Covers author key := by
  have hself : (r.del author key).latest key ≠ r.latest key := by
    rw [latest_del_self h]
    intro hsame
    exact lt_irrefl _ (h _ hsame.symm)
  rw [← del_frame_iff]
  constructor
  · exact fun hexact other => (hexact other).mp
  · exact fun hframe other => ⟨hframe other, fun heq => heq ▸ hself⟩

/-- What one author has in the document, with the clock of its writes. -/
def part (r : Replica α η) (author : α) : Replica α η :=
  ⟨r.entries.filter (·.author = author), r.clock⟩

theorem part_put (content : Option (Content η)) :
    (r.put author key content).part author = (r.part author).put author key content := by
  cases content with
  | none | some content =>
    simp only [put, setHash, del, Replica.insert, part, filter_append, filter_filter, Bool.and_comm]
    simp

theorem part_store (h : e.author ≠ author) : (r.store e).part author = r.part author := by
  have hnew : [e].filter (·.author = author) = [] := by simp [h]
  simp only [part, store, filter_append, filter_filter, hnew, append_nil]
  congr 1
  refine filter_congr fun e' _ => ?_
  by_cases hown : e'.author = author
  · simp [hown, h.symm]
  · simp [hown]

end

end Replica

end Artel
