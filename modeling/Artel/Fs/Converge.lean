import Artel.Fs.Live

namespace Artel.Fs

open List

section

variable {η : Type} [DecidableEq η] {world : World η} {complete : List η} {disk : Disk}
  {entries es : List (Entry η)} {state : ApplierState η} {e x : Entry η} {path : KeyPath} {hash : η}

def ApplierState.after (site : Site η) (state : ApplierState η) (es : List (Entry η)) :
    ApplierState η :=
  es.foldl (fun state e => (state.handleEntry site e).2) state

def ApplierState.handleNext (site : Site η) (acc : Bool × ApplierState η) (e : Entry η) :
    Bool × ApplierState η :=
  (acc.1 || (acc.2.handleEntry site e).1, (acc.2.handleEntry site e).2)

theorem ApplierState.handleEntries_state (site : Site η) :
    (state.handleEntries site es).2 = state.after site es := by
  have hfold : ∀ acc : Bool × ApplierState η,
      (es.foldl (handleNext site) acc).2 = acc.2.after site es := by
    induction es with
    | nil => exact fun acc => rfl
    | cons e es ih => exact fun acc => ih _
  exact hfold (false, state)

section

variable (hlayout : Layout world disk entries)
include hlayout

theorem Clean.after (hfails : ∀ op, world.fails op = false)
    (h : Clean world entries state) (hes : ∀ e ∈ es, e ∈ entries) :
    Clean world entries (state.after (world.site complete) es) := by
  induction es generalizing state with
  | nil => exact h
  | cons e es ih =>
    obtain ⟨he, hes⟩ := forall_mem_cons.mp hes
    exact ih (h.settled hlayout he (h.settles hlayout hfails he)) hes

theorem after_induction {P : ApplierState η → Prop}
    (hfails : ∀ op, world.fails op = false) (hclean : Clean world entries state)
    (hes : ∀ e ∈ es, e ∈ entries) (htracks : Tracks (world.site complete) state es)
    (hother : ∀ e ∈ es, e.key ≠ x.key → ∀ state state',
      ApplierState.Settles (world.site complete) state e state' → P state → P state')
    (hsame : ∀ e ∈ es, e.key = x.key → ∀ state state', Clean world entries state →
      (∀ content ∈ e.content, content.hash ∈ state.trackers.hashes ∨
        state.trackers.hashes.length < MAX_CONCURRENT_TRACKERS) →
      ApplierState.Settles (world.site complete) state e state' → P state')
    (h : P state ∨ ∃ e ∈ es, e.key = x.key) :
    P (state.after (world.site complete) es) := by
  induction es generalizing state with
  | nil => exact h.resolve_right (by simp)
  | cons e es ih =>
    obtain ⟨he, hes⟩ := forall_mem_cons.mp hes
    obtain ⟨hother₁, hother⟩ := forall_mem_cons.mp hother
    obtain ⟨hsame₁, hsame⟩ := forall_mem_cons.mp hsame
    have hsettles : ApplierState.Settles (world.site complete) state e _ :=
      hclean.settles hlayout hfails he
    refine ih (hclean.settled hlayout he hsettles) hes htracks.2 hother hsame ?_
    by_cases hkey : e.key = x.key
    · exact .inl (hsame₁ hkey _ _ hclean htracks.1 hsettles)
    · obtain hgood | ⟨e', he', hkey'⟩ := h
      · exact .inl (hother₁ hkey _ _ hsettles hgood)
      · obtain rfl | he' := mem_cons.mp he'
        · exact absurd hkey' hkey
        · exact .inr ⟨e', he', hkey'⟩

theorem handleEntry_pending
    (hclean : Clean world entries state) (he : e ∈ entries) (hplace : Place world e path)
    (hcap : WithinCap world e) (hcontent : contentHash e = some hash) (hmissing : hash ∉ complete) :
    (state.handleEntry (world.site complete) e).1 = true := by
  have hskip := incomingSkip_of_place hplace (hlayout.canonical e he path hplace).1
    (hclean.free e he path hplace) hcap
  obtain ⟨content, hsome, rfl⟩ := Option.map_eq_some_iff.mp hcontent
  have hblob : (world.site complete).blob content.hash = none := World.blob_eq_none.mpr hmissing
  have hpath : keyToPath (world.site complete).settings.filter.unicode e.key = .ok path :=
    hplace.key
  have hskip : incomingSkip (world.site complete).settings state.disk path (contentLen e) = none :=
    hskip
  simp only [ApplierState.handleEntry, hpath, hskip, hsome,
    ApplierState.applyEntryStreaming_of_none state path hblob]

theorem handleEntries_pending
    (hfails : ∀ op, world.fails op = false) (hclean : Clean world entries state)
    (hes : ∀ e ∈ es, e ∈ entries) (he : e ∈ es) (hplace : Place world e path)
    (hcap : WithinCap world e) (hcontent : contentHash e = some hash) (hmissing : hash ∉ complete) :
    (state.handleEntries (world.site complete) es).1 = true := by
  have hfold : ∀ acc : Bool × ApplierState η, Clean world entries acc.2 →
      acc.1 = true ∨ e ∈ es →
      (es.foldl (ApplierState.handleNext (world.site complete)) acc).1 = true := by
    clear he hclean
    induction es with
    | nil => exact fun acc _ h => h.resolve_right not_mem_nil
    | cons e' es ih =>
      intro acc hclean h
      obtain ⟨he', hes⟩ := forall_mem_cons.mp hes
      refine ih hes _ (hclean.settled hlayout he' (hclean.settles hlayout hfails he')) ?_
      obtain hpending | hin := h
      · exact .inl (Bool.or_eq_true_iff.mpr (.inl hpending))
      · obtain rfl | hin := mem_cons.mp hin
        · have hwaits := handleEntry_pending hlayout hclean he' hplace hcap hcontent hmissing
          exact .inl (Bool.or_eq_true_iff.mpr (.inr hwaits))
        · exact .inr hin
  exact hfold (false, state) hclean (.inr he)

end

section

variable (hlayout : Layout world disk entries) (hfails : ∀ op, world.fails op = false)
  (hclean : Clean world entries state) (hes : ∀ e ∈ es, e ∈ entries)
  (htracks : Tracks (world.site complete) state es) (hx : x ∈ entries) (hplace : Place world x path)

include hlayout hfails hclean hes htracks hx hplace

theorem after_frame (hkey : ∀ e ∈ es, e.key ≠ x.key) :
    (state.after (world.site complete) es).disk path.parts = state.disk path.parts ∧
    ∀ hash, Waits complete state.trackers path.parts hash →
      Waits complete (state.after (world.site complete) es).trackers path.parts hash := by
  refine after_induction (x := x) (P := fun state' =>
    state'.disk path.parts = state.disk path.parts ∧
    ∀ hash, Waits complete state.trackers path.parts hash →
      Waits complete state'.trackers path.parts hash)
    hlayout hfails hclean hes htracks (fun e he hne state₁ state₂ hsettles hgood => ?_)
    (fun e he heq => absurd heq (hkey e he)) (.inl ⟨rfl, fun _ => id⟩)
  obtain ⟨hdisk, hwaits⟩ := hsettles.frame hlayout (hes e he) hx hplace hne
  exact ⟨hdisk.trans hgood.1, fun hash h => hwaits hash (hgood.2 hash h)⟩

variable (hcap : WithinCap world x)
  (hsame : ∀ e ∈ es, e.key = x.key → contentHash x = contentHash e)
  (hkey : ∃ e ∈ es, e.key = x.key)

include hcap hsame hkey

theorem after_reflects :
    Reflects world (state.after (world.site complete) es).disk path.parts x ∨
    ∃ hash, contentHash x = some hash ∧ hash ∉ complete ∧
      path.parts ∈ (state.after (world.site complete) es).trackers.trackedPaths hash := by
  refine after_induction (x := x) (P := fun state' =>
    Reflects world state'.disk path.parts x ∨
    ∃ hash, contentHash x = some hash ∧ hash ∉ complete ∧
      path.parts ∈ state'.trackers.trackedPaths hash)
    hlayout hfails hclean hes htracks (fun e he hne state₁ state₂ hsettles hgood => ?_)
    (fun e he heq state₁ state₂ hclean₁ hroom hsettles => ?_) (.inr hkey)
  · obtain ⟨hdisk, hwaits⟩ := hsettles.frame hlayout (hes e he) hx hplace hne
    refine hgood.imp hdisk.trans fun ⟨hash, hhash, hmissing, hin⟩ => ⟨hash, hhash, hmissing, ?_⟩
    exact (hwaits hash (.inl hin)).resolve_right fun h => hmissing h.1
  · exact hsettles.reflects hlayout hclean₁ (hes e he) hx hplace hcap heq (hsame e he heq) hroom

end

theorem mem_readyEntries {site : Site η} {doc : Replica (FixedBytes 32) η}
    (h : e ∈ state.readyEntries site doc hash) : e ∈ doc.entries ∧ contentHash e = some hash := by
  have hready : ∀ {e : Entry η}, e.content.any (·.hash = hash) = true → contentHash e = some hash := by
    intro e he
    rw [Option.any_eq_true] at he
    obtain ⟨content, hcontent, hhash⟩ := he
    rw [contentHash, hcontent, Option.map_some, of_decide_eq_true hhash]
  unfold ApplierState.readyEntries at h
  split at h
  · obtain ⟨hin, he⟩ := mem_filter.mp h
    exact ⟨hin, hready he⟩
  · obtain ⟨path, -, hpath⟩ := mem_filterMap.mp h
    obtain ⟨key, -, hkey⟩ := Option.bind_eq_some_iff.mp hpath
    obtain ⟨hlatest, he⟩ := Option.filter_eq_some_iff.mp hkey
    exact ⟨(Replica.mem_of_latest hlatest).1, hready he⟩

theorem Waits.mem_readyEntries {site : Site η} {doc : Replica (FixedBytes 32) η} {path : Path}
    (h : Waits complete state.trackers path hash) (hlatest : doc.latest x.key = some x)
    (hkey : pathToKey site.settings.filter.unicode path.rel = .ok x.key)
    (hhash : contentHash x = some hash) : x ∈ state.readyEntries site doc hash := by
  obtain ⟨content, hcontent, rfl⟩ := Option.map_eq_some_iff.mp hhash
  have hready : x.content.any (·.hash = content.hash) = true := by simp [hcontent]
  unfold ApplierState.readyEntries
  split
  · exact mem_filter.mpr ⟨(Replica.mem_of_latest hlatest).1, hready⟩
  · rename_i tracked hsome
    have hin : path ∈ state.trackers.trackedPaths content.hash :=
      h.resolve_right fun hnil => hsome hnil.2
    refine mem_filterMap.mpr ⟨path, hin, ?_⟩
    simp [hkey, Except.toOption, hlatest, hready]

end

namespace Live

section

variable {η : Type} [DecidableEq η] {world : World η} {disk : Disk} {entries : List (Entry η)}
  {s : Live η} {event : LiveEvent η} {e x : Entry η} {path : KeyPath} {hash : η} {k : ℕ}

def Owes (s : Live η) (hash : η) : Prop := hash ∈ s.unannounced ∨ .contentReady hash ∈ s.queue

/-- The latest handled entry of each key is on disk or waits for its blob. -/
structure Kept (world : World η) (entries : List (Entry η)) (s : Live η) : Prop where
  clean : Clean world entries s.node
  stored : ∀ e ∈ s.doc.entries, e ∈ entries
  awaited : ∀ e, .insertRemote e ∈ s.queue → e ∈ entries
  known : ∀ e, e ∈ s.handled ∨ .insertRemote e ∈ s.queue → ∃ e' ∈ s.doc.entries,
    e'.author = e.author ∧ e'.key = e.key ∧ e.timestamp ≤ e'.timestamp
  queued : ∀ e ∈ s.doc.entries, e ∈ s.handled ∨ .insertRemote e ∈ s.queue
  settled : ∀ x path, s.doc.latest x.key = some x → Place world x path → WithinCap world x →
    x ∈ s.handled → Reflects world s.node.disk path.parts x ∨
      ∃ hash, contentHash x = some hash ∧ Waits s.complete s.node.trackers path.parts hash ∧
        (hash ∈ s.complete → s.Owes hash)

theorem react_eq (world : World η) (s : Live η) (event : LiveEvent η) :
    s.react world event = s.node.after (world.site s.complete) (s.concerned world event) ∨
    ∃ hash, event = .contentReady hash ∧
      (s.node.handleEntries (world.site s.complete) (s.concerned world event)).1 = false ∧
      s.react world event =
        { s.node.after (world.site s.complete) (s.concerned world event) with
          trackers := (s.node.after (world.site s.complete)
            (s.concerned world event)).trackers.finish hash } := by
  cases event with
  | insertRemote entry => exact .inl rfl
  | contentReady hash =>
    simp only [react, concerned, ApplierState.handleContentReady]
    rw [← ApplierState.handleEntries_state]
    split
    · rename_i heq
      exact .inl (by rw [heq])
    · rename_i heq
      exact .inr ⟨hash, rfl, by rw [heq], by rw [heq]⟩

theorem react_disk : (s.react world event).disk =
    (s.node.after (world.site s.complete) (s.concerned world event)).disk := by
  obtain h | ⟨hash, -, -, h⟩ := react_eq world s event <;> rw [h]

theorem react_guard : (s.react world event).guard =
    (s.node.after (world.site s.complete) (s.concerned world event)).guard := by
  obtain h | ⟨hash, -, -, h⟩ := react_eq world s event <;> rw [h]

theorem concerned_mem (h : Kept world entries s) (hk : s.queue[k]? = some event)
    (he : e ∈ s.concerned world event) : e ∈ entries ∧ ∃ e' ∈ s.doc.entries,
      e'.author = e.author ∧ e'.key = e.key ∧ e.timestamp ≤ e'.timestamp := by
  cases event with
  | insertRemote entry =>
    obtain rfl := mem_singleton.mp he
    have hin := mem_of_getElem? hk
    exact ⟨h.awaited e hin, h.known e (.inr hin)⟩
  | contentReady hash =>
    have hin := (mem_readyEntries he).1
    exact ⟨h.stored e hin, e, hin, rfl, rfl, le_rfl⟩

theorem concerned_same (hx : x ∈ s.concerned world event) (he : e ∈ s.concerned world event) :
    contentHash x = contentHash e := by
  cases event with
  | insertRemote entry => rw [mem_singleton.mp hx, mem_singleton.mp he]
  | contentReady hash => rw [(mem_readyEntries hx).2, (mem_readyEntries he).2]

theorem Orderly.same (hk : s.queue[k]? = some event)
    (horderly : s.Orderly world (.handle k)) (hlatest : s.doc.latest x.key = some x)
    (hx : x ∈ s.handled ∨ x ∈ s.concerned world event) :
    ∀ e ∈ s.concerned world event, e.key = x.key → contentHash x = contentHash e := by
  intro e he hkey
  obtain hx | hx := hx
  · exact (horderly event hk).2 e he x (hkey ▸ hlatest) hx
  · exact concerned_same hx he

section

variable (hlayout : Layout world disk entries)
include hlayout

/-- No entry of the key is concerned, so the latest one waits for another blob, if for any. -/
theorem Kept.elsewhere (h : Kept world entries s)
    (hlatest : s.doc.latest x.key = some x) (hplace : Place world x path)
    (hwaits : Waits s.complete s.node.trackers path.parts hash) (hhash : contentHash x = some hash)
    (hkey : ∀ e ∈ s.concerned world event, e.key ≠ x.key) : event ≠ .contentReady hash := by
  rintro rfl
  have hx := h.stored x (Replica.mem_of_latest hlatest).1
  have hcanonical := hlayout.canonical x hx path hplace
  exact hkey x (hwaits.mem_readyEntries hlatest hcanonical.2 hhash) rfl

theorem Kept.settled_handle
    (hfails : ∀ op, world.fails op = false) (h : Kept world entries s)
    (hk : s.queue[k]? = some event) (horderly : s.Orderly world (.handle k))
    (hlatest : s.doc.latest x.key = some x) (hplace : Place world x path)
    (hcap : WithinCap world x) (hhandled : x ∈ s.handled ∨ x ∈ s.concerned world event) :
    Reflects world (s.react world event).disk path.parts x ∨
    ∃ hash, contentHash x = some hash ∧
      Waits s.complete (s.react world event).trackers path.parts hash ∧
      (hash ∈ s.complete → s.Owes hash ∧ event ≠ .contentReady hash) := by
  have hx := h.stored x (Replica.mem_of_latest hlatest).1
  have hes : ∀ e ∈ s.concerned world event, e ∈ entries := fun e he => (concerned_mem h hk he).1
  have htracks := (horderly event hk).1
  have hsame := horderly.same hk hlatest hhandled
  by_cases hkey : ∃ e ∈ s.concerned world event, e.key = x.key
  · obtain hreflects | ⟨hash, hhash, hmissing, hin⟩ := after_reflects hlayout hfails h.clean hes
      htracks hx hplace hcap hsame hkey
    · refine .inl ?_
      rwa [Reflects, react_disk]
    · refine .inr ⟨hash, hhash, ?_, fun hcomplete => absurd hcomplete hmissing⟩
      obtain hreact | ⟨_, -, hpending, -⟩ := react_eq world s event
      · rw [hreact]
        exact .inl hin
      -- an entry of the key has been left to wait, so its tracker is kept
      obtain ⟨e, he, heq⟩ := hkey
      have hplace' : Place world e path := ⟨hplace.toClear, heq ▸ hplace.key, hplace.mode⟩
      have hcontent := hsame e he heq
      have hwaits := handleEntries_pending hlayout hfails h.clean hes he hplace'
        (hcap.of_contentHash_eq hlayout (hes e he) hx hcontent) (hcontent.symm.trans hhash) hmissing
      rw [hpending] at hwaits
      cases hwaits
  · have hkey : ∀ e ∈ s.concerned world event, e.key ≠ x.key := fun e he heq => hkey ⟨e, he, heq⟩
    have hhandled : x ∈ s.handled := hhandled.resolve_right fun hin => hkey x hin rfl
    obtain ⟨hdisk, hwaits⟩ := after_frame hlayout hfails h.clean hes htracks hx hplace hkey
    obtain hreflects | ⟨hash, hhash, hold, howes⟩ := h.settled x path hlatest hplace hcap hhandled
    · refine .inl ?_
      rwa [Reflects, react_disk, hdisk]
    · have hne := h.elsewhere hlayout hlatest hplace hold hhash hkey
      refine .inr ⟨hash, hhash, ?_, fun hcomplete => ⟨howes hcomplete, hne⟩⟩
      obtain hreact | ⟨hash', hevent, -, hreact⟩ := react_eq world s event <;> rw [hreact]
      · exact hwaits hash hold
      · exact (hwaits hash hold).finish fun heq => absurd (heq ▸ hevent) hne

theorem Kept.handle (hfails : ∀ op, world.fails op = false)
    (h : Kept world entries s) (hk : s.queue[k]? = some event)
    (horderly : s.Orderly world (.handle k)) :
    Kept world entries
      { s with
        queue := s.queue.eraseIdx k
        node := s.react world event
        handled := s.handled ++ s.concerned world event } where
  clean := by
    have hafter : Clean world entries
        (s.node.after (world.site s.complete) (s.concerned world event)) :=
      h.clean.after hlayout hfails fun e he => (concerned_mem h hk he).1
    exact ⟨by simpa only [react_disk] using hafter.free,
      by simpa only [react_disk, react_guard] using hafter.mark⟩
  stored := h.stored
  awaited := fun e he => h.awaited e (mem_of_mem_eraseIdx he)
  known := by
    rintro e (he | he)
    · obtain he | he := mem_append.mp he
      · exact h.known e (.inl he)
      · exact (concerned_mem h hk he).2
    · exact h.known e (.inr (mem_of_mem_eraseIdx he))
  queued := by
    intro e he
    obtain hhandled | hqueued := h.queued e he
    · exact .inl (mem_append_left _ hhandled)
    · obtain rfl | hqueued := eq_or_mem_eraseIdx hk hqueued
      · exact .inl (mem_append_right _ (mem_singleton_self e))
      · exact .inr hqueued
  settled := by
    intro x path hlatest hplace hcap hx
    refine (h.settled_handle hlayout hfails hk horderly hlatest hplace hcap
      (mem_append.mp hx)).imp_right fun ⟨hash, hhash, hwaits, howes⟩ =>
        ⟨hash, hhash, hwaits, fun hcomplete => ?_⟩
    obtain ⟨howes, hne⟩ := howes hcomplete
    exact howes.imp_right fun hin => (eq_or_mem_eraseIdx hk hin).resolve_left hne.symm

end

theorem Kept.store (h : Kept world entries s) (he : e ∈ entries) (haccepts : s.doc.accepts e = true) :
    Kept world entries
      { s with doc := s.doc.store e, queue := s.queue ++ [.insertRemote e] } where
  clean := h.clean
  stored := by
    intro e' he'
    obtain ⟨he', -⟩ | rfl := Replica.mem_store.mp he'
    · exact h.stored e' he'
    · exact he
  awaited := by
    intro e' he'
    obtain he' | he' := mem_append.mp he'
    · exact h.awaited e' he'
    · cases mem_singleton.mp he'
      exact he
  known := by
    intro e' he'
    by_cases hnew : e' = e
    · exact ⟨e, Replica.mem_store.mpr (.inr rfl), by simp [hnew]⟩
    have hold : e' ∈ s.handled ∨ .insertRemote e' ∈ s.queue := by simpa [hnew] using he'
    obtain ⟨e₁, he₁, hauthor, hkey, hle⟩ := h.known e' hold
    by_cases hreplaced : e₁.author = e.author ∧ e₁.key = e.key
    · have hlt := Replica.accepts_iff.mp haccepts e₁ he₁ hreplaced.1 hreplaced.2
      exact ⟨e, Replica.mem_store.mpr (.inr rfl), hreplaced.1 ▸ hauthor, hreplaced.2 ▸ hkey,
        hle.trans hlt.le⟩
    · exact ⟨e₁, Replica.mem_store.mpr (.inl ⟨he₁, hreplaced⟩), hauthor, hkey, hle⟩
  queued := by
    intro e' he'
    obtain ⟨he', -⟩ | rfl := Replica.mem_store.mp he'
    · exact (h.queued e' he').imp_right (mem_append_left _)
    · exact .inr (mem_append_right _ (mem_singleton_self _))
  settled := by
    intro x path hlatest hplace hcap hx
    obtain rfl | hold := Replica.latest_store haccepts hlatest
    · -- what has been handled is not accepted again
      obtain ⟨e₁, he₁, hauthor, hkey, hle⟩ := h.known x (.inl hx)
      exact absurd (Replica.accepts_iff.mp haccepts e₁ he₁ hauthor hkey) (Nat.not_lt.mpr hle)
    · refine (h.settled x path hold hplace hcap hx).imp_right
        fun ⟨hash, hhash, hwaits, howes⟩ => ⟨hash, hhash, hwaits, fun hcomplete => ?_⟩
      exact (howes hcomplete).imp_right (mem_append_left _)

theorem Kept.fetch (h : Kept world entries s) (hash : η) :
    Kept world entries
      { s with complete := hash :: s.complete, unannounced := hash :: s.unannounced } where
  clean := h.clean
  stored := h.stored
  awaited := h.awaited
  known := h.known
  queued := h.queued
  settled := by
    intro x path hlatest hplace hcap hx
    refine (h.settled x path hlatest hplace hcap hx).imp_right
      fun ⟨hash', hhash, hwaits, howes⟩ => ⟨hash', hhash, ?_, fun hcomplete => ?_⟩
    · exact hwaits.imp_right fun ⟨hcomplete, hnil⟩ => ⟨mem_cons_of_mem _ hcomplete, hnil⟩
    · obtain rfl | hcomplete := mem_cons.mp hcomplete
      · exact .inl mem_cons_self
      · exact (howes hcomplete).imp_left (mem_cons_of_mem _)

theorem Kept.announce (h : Kept world entries s) (hash : η) :
    Kept world entries
      { s with
        queue := s.queue ++ [.contentReady hash]
        unannounced := s.unannounced.filter (· ≠ hash) } where
  clean := h.clean
  stored := h.stored
  awaited := fun e he => h.awaited e (by simpa using he)
  known := fun e he => h.known e (by simpa using he)
  queued := fun e he => (h.queued e he).imp_right (mem_append_left _)
  settled := by
    intro x path hlatest hplace hcap hx
    refine (h.settled x path hlatest hplace hcap hx).imp_right
      fun ⟨hash', hhash, hwaits, howes⟩ => ⟨hash', hhash, hwaits, fun hcomplete => ?_⟩
    by_cases heq : hash' = hash
    · exact .inr (mem_append_right _ (by simp [heq]))
    · refine (howes hcomplete).imp (fun hin => ?_) (mem_append_left _)
      exact mem_filter.mpr ⟨hin, decide_eq_true heq⟩

theorem Kept.step (hlayout : Layout world disk entries) (hfails : ∀ op, world.fails op = false)
    (h : Kept world entries s) {action : LiveAction η} (horderly : s.Orderly world action)
    (hentry : ∀ e ∈ action.entry, e ∈ entries) : Kept world entries (s.step world action) := by
  cases action with
  | store e =>
    simp only [Live.step]
    split
    · exact h.store (hentry e rfl) ‹_›
    · exact h
  | fetch hash => exact h.fetch hash
  | announce hash => exact h.announce hash
  | handle k =>
    simp only [Live.step]
    split
    · exact h
    · exact h.handle hlayout hfails ‹_› horderly

theorem kept_start (hlayout : Layout world disk entries) (tempSeq : ℕ) :
    Kept world entries (start disk tempSeq) := by
  refine ⟨⟨hlayout.free, ?_⟩, nofun, nofun, ?_, nofun, nofun⟩
  · intro e he path hplace hmark
    cases hmark
  · intro e he
    simp [start] at he

end

end Live

theorem Live.kept_run {η : Type} [DecidableEq η] (world : World η) (disk : Disk) (tempSeq : ℕ)
    (as : List (LiveAction η)) (hfails : ∀ op, world.fails op = false)
    (hlayout : Layout world disk (as.filterMap LiveAction.entry))
    (h : Along (Live.step world) (Live.Orderly world) (Live.start disk tempSeq) as) :
    Live.Kept world (as.filterMap LiveAction.entry)
      (as.foldl (Live.step world) (Live.start disk tempSeq)) := by
  have hentries : ∀ action ∈ as, ∀ e ∈ action.entry, e ∈ as.filterMap LiveAction.entry :=
    fun action haction e he => mem_filterMap.mpr ⟨action, haction, he⟩
  exact (h.and_of_mem hentries).invariant
    (fun s action hs haction => hs.step hlayout hfails haction.1 haction.2)
    (Live.kept_start hlayout tempSeq)

/-- In order and none in another's way, the entries end on disk. -/
theorem applier_converges {η : Type} [DecidableEq η] (world : World η) (disk : Disk) (tempSeq : ℕ)
    (as : List (LiveAction η)) (hfails : ∀ op, world.fails op = false)
    (hlayout : Layout world disk (as.filterMap LiveAction.entry))
    (h : Along (Live.step world) (Live.Orderly world) (Live.start disk tempSeq) as) :
    let s := as.foldl (Live.step world) (Live.start disk tempSeq)
    s.queue = [] → s.unannounced = [] →
    (∀ e ∈ s.doc.entries, ∀ hash, contentHash e = some hash → hash ∈ s.complete) →
    ∀ e path, s.doc.latest e.key = some e →
      keyToPath world.settings.filter.unicode e.key = .ok path →
      incomingSkip world.settings s.node.disk path (contentLen e) = none →
      s.node.disk path.parts = (contentHash e).map fun hash => .file (world.content hash) := by
  intro s hqueue hunannounced hblobs e path hlatest hpath hskip
  have hkept : Live.Kept world (as.filterMap LiveAction.entry) s :=
    Live.kept_run world disk tempSeq as hfails hlayout h
  have hin := (Replica.mem_of_latest hlatest).1
  obtain ⟨hplace, hcap⟩ := place_of_incomingSkip hpath hskip
  have hhandled : e ∈ s.handled := (hkept.queued e hin).resolve_right (by simp [hqueue])
  refine (hkept.settled e path hlatest hplace hcap hhandled).resolve_right ?_
  rintro ⟨hash, hhash, -, howes⟩
  simpa [Live.Owes, hunannounced, hqueue] using howes (hblobs e hin hash hhash)

/-- In order, a ready blob gets to every path whose latest entry it is of. -/
theorem ready_blob_is_applied {η : Type} [DecidableEq η] (world : World η) (disk : Disk) (tempSeq : ℕ)
    (as : List (LiveAction η)) (hfails : ∀ op, world.fails op = false)
    (hlayout : Layout world disk (as.filterMap LiveAction.entry))
    (h : Along (Live.step world) (Live.Orderly world) (Live.start disk tempSeq) as)
    (k : ℕ) (hash : η) :
    let s := as.foldl (Live.step world) (Live.start disk tempSeq)
    s.Orderly world (.handle k) → s.queue[k]? = some (.contentReady hash) → hash ∈ s.complete →
    ∀ e path, s.doc.latest e.key = some e → contentHash e = some hash → e ∈ s.handled →
      keyToPath world.settings.filter.unicode e.key = .ok path →
      incomingSkip world.settings s.node.disk path (contentLen e) = none →
      (s.step world (.handle k)).node.disk path.parts = some (.file (world.content hash)) := by
  intro s horderly hk hcomplete e path hlatest hhash hhandled hpath hskip
  have hkept : Live.Kept world (as.filterMap LiveAction.entry) s :=
    Live.kept_run world disk tempSeq as hfails hlayout h
  obtain ⟨hplace, hcap⟩ := place_of_incomingSkip hpath hskip
  have hstep : (s.step world (.handle k)).node = s.react world (.contentReady hash) := by
    simp only [Live.step, hk]
  have hreflects := (hkept.settled_handle hlayout hfails hk horderly hlatest hplace hcap
    (.inl hhandled)).resolve_right ?_
  · rw [hstep, hreflects, hhash, Option.map_some]
  · rintro ⟨hash', hhash', -, howes⟩
    obtain rfl : hash = hash' := Option.some.inj (hhash.symm.trans hhash')
    exact (howes hcomplete).2 rfl

instance decidableTracks {η : Type} [DecidableEq η] (site : Site η) :
    (state : ApplierState η) → (es : List (Entry η)) → Decidable (Tracks site state es)
  | _, [] => inferInstanceAs (Decidable True)
  | state, e :: es =>
    have : Decidable (∀ content ∈ e.content, content.hash ∈ state.trackers.hashes ∨
        state.trackers.hashes.length < MAX_CONCURRENT_TRACKERS) :=
      Option.decidableForallMem e.content
    have : Decidable (Tracks site (state.handleEntry site e).2 es) := decidableTracks site _ es
    inferInstanceAs (Decidable (_ ∧ _))

instance Live.decidableOrderly {η : Type} [DecidableEq η] (world : World η) (s : Live η) :
    (action : LiveAction η) → Decidable (s.Orderly world action)
  | .handle k =>
    have (e : Entry η) : Decidable (∀ latest ∈ s.doc.latest e.key, latest ∈ s.handled →
        contentHash latest = contentHash e) :=
      Option.decidableForallMem _
    have (event : LiveEvent η) : Decidable (Tracks (world.site s.complete) s.node
        (s.concerned world event) ∧ ∀ e ∈ s.concerned world event,
          ∀ latest ∈ s.doc.latest e.key, latest ∈ s.handled →
            contentHash latest = contentHash e) :=
      inferInstanceAs (Decidable (_ ∧ _))
    Option.decidableForallMem s.queue[k]?
  | .store _ | .fetch _ | .announce _ => inferInstanceAs (Decidable True)

namespace Sample

open Workspace.Sample

def world : World Bytes := ⟨settings .readWrite, 1, id, fun _ => false⟩

/-- An applier that follows an empty replica on an empty disk, after some actions. -/
def live (as : List (LiveAction Bytes)) : Live Bytes :=
  as.foldl (Live.step world) (Live.start (fun _ => none) 0)

def rewritten : List (LiveAction Bytes) :=
  [.store (fileEntry 2 [97] 1 0), .handle 0, .store (fileEntry 2 [97] 2 1), .handle 0, .fetch [2],
    .announce [2]]

def finished : List (LiveAction Bytes) := rewritten ++ [.handle 0]

def aPath : KeyPath where
  parts := [[97]]
  asDir := false
  ne_nil := cons_ne_nil _ _
  isName := forall_mem_singleton.mpr ⟨by decide, by decide, by decide, by decide⟩

theorem keyToPath_a : keyToPath world.settings.filter.unicode (KEY_PREFIX ++ [97]) = .ok aPath := rfl

theorem layout_rewritten :
    Layout world (fun _ => none) (rewritten.filterMap LiveAction.entry) := by
  have hkey : ∀ e ∈ rewritten.filterMap LiveAction.entry, e.key = KEY_PREFIX ++ [97] := by
    decide +kernel
  have hpath : ∀ e ∈ rewritten.filterMap LiveAction.entry, ∀ path, Place world e path →
      path = aPath := by
    intro e he path hplace
    have hnamed := hplace.key
    rw [hkey e he, keyToPath_a] at hnamed
    exact (Except.ok.inj hnamed).symm
  refine ⟨by decide +kernel, fun e he path hplace => ?_, fun e he path hplace => ?_, ?_⟩
  · rw [hpath e he path hplace, hkey e he]
    exact ⟨rfl, by decide +kernel⟩
  · exact ⟨fun _ _ _ _ => .inl rfl, .inl rfl, fun _ => rfl⟩
  · intro e he e' he' path path' hplace hplace' _
    rw [hpath e he path hplace, hpath e' he' path' hplace']

theorem orderly_finished : Along (Live.step world) (Live.Orderly world)
    (Live.start (fun _ => none) 0) finished := by
  decide +kernel

theorem applier_converges_finished : (live finished).node.disk [[97]] = some (.file [2]) := by
  have hlayout : Layout world (fun _ => none) (finished.filterMap LiveAction.entry) :=
    layout_rewritten
  have hqueue : (live finished).queue = [] := by decide +kernel
  have hunannounced : (live finished).unannounced = [] := by decide +kernel
  have hblobs : ∀ e ∈ (live finished).doc.entries, ∀ hash,
      contentHash e = some hash → hash ∈ (live finished).complete := by
    intro e he hash hhash
    rw [mem_singleton.mp he] at hhash
    obtain rfl : [2] = hash := Option.some.inj hhash
    decide +kernel
  exact applier_converges world (fun _ => none) 0 finished (fun _ => rfl) hlayout orderly_finished
    hqueue hunannounced hblobs (fileEntry 2 [97] 2 1) aPath (by decide +kernel) keyToPath_a
    (by decide +kernel)

theorem ready_blob_is_applied_rewritten :
    ((live rewritten).step world (.handle 0)).node.disk [[97]] = some (.file [2]) := by
  have horderly : (live rewritten).Orderly world (.handle 0) := by decide +kernel
  have hevent : (live rewritten).queue[0]? = some (.contentReady [2]) := by decide +kernel
  have hcomplete : [2] ∈ (live rewritten).complete := by decide +kernel
  have hlatest : (live rewritten).doc.latest (KEY_PREFIX ++ [97]) = some (fileEntry 2 [97] 2 1) := by
    decide +kernel
  have hhandled : fileEntry 2 [97] 2 1 ∈ (live rewritten).handled := by decide +kernel
  exact ready_blob_is_applied world (fun _ => none) 0 rewritten (fun _ => rfl) layout_rewritten
    orderly_finished.split.1 0 [2] horderly hevent hcomplete (fileEntry 2 [97] 2 1) aPath hlatest rfl
    hhandled keyToPath_a (by decide +kernel)

/-- The newer entry is on the disk when an older one comes whose blob is there. -/
theorem older_entry_overwrites :
    let s := live [.store (fileEntry 2 [97] 2 5), .fetch [2], .announce [2], .handle 0, .handle 0,
      .store (fileEntry 3 [97] 1 0), .fetch [1], .announce [1], .handle 0, .handle 0]
    s.queue = [] ∧ s.unannounced = [] ∧ s.complete = [[1], [2]] ∧
      s.doc.latest (KEY_PREFIX ++ [97]) = some (fileEntry 2 [97] 2 5) ∧
      s.node.disk [[97]] = some (.file [1]) := by
  decide +kernel

/-- `a` and `b` wait for one blob; an older entry of `a` has it wait for another one. -/
theorem ready_blob_is_missed :
    let s := live [.store (fileEntry 2 [97] 1 5), .store (fileEntry 2 [98] 1 6), .handle 0, .handle 0,
      .store (fileEntry 3 [97] 9 0), .handle 0, .fetch [1], .announce [1], .handle 0]
    s.complete = [[1]] ∧ s.queue = [] ∧ fileEntry 2 [97] 1 5 ∈ s.handled ∧
      s.doc.latest (KEY_PREFIX ++ [97]) = some (fileEntry 2 [97] 1 5) ∧
      s.doc.latest (KEY_PREFIX ++ [98]) = some (fileEntry 2 [98] 1 6) ∧
      s.node.disk [[97]] = none ∧ s.node.disk [[98]] = some (.file [1]) := by
  decide +kernel

end Sample

end Artel.Fs
