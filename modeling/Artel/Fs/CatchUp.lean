import Artel.Fs.Converge

namespace Artel.Fs

section

variable {η : Type} [DecidableEq η] {world : World η} {disk : Disk} {entries : List (Entry η)}
  {state : ApplierState η} {e x : Entry η} {path : KeyPath} (complete : List η)
  (hfails : ∀ op, world.fails op = false)
include hfails

section

variable (hlayout : Layout world disk entries)
include hlayout

theorem Clean.catchUpEntry (h : Clean world entries state) (hx : x ∈ entries) :
    Clean world entries (state.catchUpEntry (world.site complete) x) ∧
      (∀ e ∈ entries, ∀ path, Place world e path → x.key ≠ e.key →
        (state.catchUpEntry (world.site complete) x).disk path.parts = state.disk path.parts) := by
  unfold ApplierState.catchUpEntry
  split
  · exact ⟨h, fun _ _ _ _ _ => rfl⟩
  split
  · exact ⟨h, fun _ _ _ _ _ => rfl⟩
  · have hsettles : ApplierState.Settles (world.site complete) state x _ :=
      h.settles hlayout hfails hx
    exact ⟨h.settled hlayout hx hsettles, fun _ he _ hplace hne =>
      (hsettles.frame hlayout hx he hplace hne).1⟩

theorem Clean.foldl_catchUpEntry (h : Clean world entries state) (he : e ∈ entries)
    (hplace : Place world e path) {others : List (Entry η)}
    (hothers : ∀ x ∈ others, x ∈ entries ∧ x.key ≠ e.key) :
    let reached := others.foldl (fun state x => state.catchUpEntry (world.site complete) x) state
    Clean world entries reached ∧ reached.disk path.parts = state.disk path.parts := by
  refine List.foldlRecOn (motive := fun reached : ApplierState η => Clean world entries reached ∧
    reached.disk path.parts = state.disk path.parts) others _ ⟨h, rfl⟩ ?_
  intro reached ⟨hreached, hdisk⟩ x hx
  obtain ⟨hin, hne⟩ := hothers x hx
  obtain ⟨hclean, hsame⟩ := hreached.catchUpEntry complete hfails hlayout hin
  exact ⟨hclean, (hsame e he path hplace hne).trans hdisk⟩

end

/-- A path is decided when its own entry is reached, and is then as it was. -/
theorem Clean.catchUp_own {doc : Replica (FixedBytes 32) η}
    (hlayout : Layout world disk doc.latestPerKey) (h : Clean world doc.latestPerKey state)
    (he : e ∈ doc.latestPerKey) (hplace : Place world e path) :
    ∃ reached, Clean world doc.latestPerKey reached ∧
      reached.disk path.parts = state.disk path.parts ∧
      (state.catchUp (world.site complete) doc).disk path.parts =
        (if ApplierState.diskMatches reached.disk path e then reached
          else (reached.handleEntry (world.site complete) e).2).disk path.parts := by
  have hascending := doc.latestPerKey_ascending
  obtain ⟨before, after, hsplit⟩ := List.append_of_mem he
  have hin : ∀ x ∈ before ++ e :: after, x ∈ doc.latestPerKey := fun x hx => hsplit ▸ hx
  rw [hsplit] at hascending
  obtain ⟨-, hafter, hbefore⟩ := List.pairwise_append.mp hascending
  have hothers : ∀ x ∈ before, x ∈ doc.latestPerKey ∧ x.key ≠ e.key := fun x hx =>
    ⟨hin x (List.mem_append_left _ hx), fun heq =>
      List.lt_irrefl _ (heq ▸ hbefore x hx e List.mem_cons_self)⟩
  have hlater : ∀ x ∈ after, x ∈ doc.latestPerKey ∧ x.key ≠ e.key := fun x hx =>
    ⟨hin x (List.mem_append_right _ (List.mem_cons_of_mem e hx)), fun heq =>
      List.lt_irrefl _ (heq ▸ (List.pairwise_cons.mp hafter).1 x hx)⟩
  obtain ⟨hreached, hsame⟩ := h.foldl_catchUpEntry complete hfails hlayout he hplace hothers
  have hnext := (hreached.catchUpEntry complete hfails hlayout he).1
  refine ⟨_, hreached, hsame, ?_⟩
  rw [ApplierState.catchUp, hsplit, List.foldl_append, List.foldl_cons,
    (hnext.foldl_catchUpEntry complete hfails hlayout he hplace hlater).2]
  simp only [ApplierState.catchUpEntry, World.site, hplace.key]

end

/-- Where no path is in another's way, the disk has the latest entries after the catch-up exactly if no
file has the length of its entry and other bytes. -/
theorem catchUp_reflects_iff {η : Type} [DecidableEq η] (world : World η) (complete : List η)
    (doc : Replica (FixedBytes 32) η) (state : ApplierState η)
    (hfails : ∀ op, world.fails op = false)
    (hlayout : Layout world state.disk doc.latestPerKey)
    (hmarks : ∀ path, state.guard.peerDeleted path = true → state.disk path = none)
    (hblobs : ∀ e ∈ doc.latestPerKey, ∀ content ∈ e.content, content.hash ∈ complete) :
    (∀ e path, doc.latest e.key = some e → Place world e path → WithinCap world e →
      Reflects world (state.catchUp (world.site complete) doc).disk path.parts e) ↔
    ∀ e path, doc.latest e.key = some e → Place world e path → WithinCap world e →
      ∀ content ∈ e.content, ∀ bytes, state.disk path.parts = some (.file bytes) →
        bytes.length = content.len → bytes = world.content content.hash := by
  have hclean : Clean world doc.latestPerKey state :=
    ⟨hlayout.free, fun _ _ path _ => hmarks path.parts⟩
  constructor
  · intro h e path hlatest hplace hcap content hcontent bytes hfile hlen
    have he := Replica.mem_latestPerKey.mpr hlatest
    obtain ⟨reached, hreached, hsame, hfinal⟩ :=
      hclean.catchUp_own complete hfails hlayout he hplace
    have hmatches : ApplierState.diskMatches reached.disk path e = true := by
      simp [ApplierState.diskMatches, Option.mem_def.mp hcontent, KeyPath.size,
        (hlayout.canonical e he path hplace).1, Disk.fileSize, hsame, hfile, hlen]
    have hreflects := h e path hlatest hplace hcap
    rw [Reflects, hfinal, if_pos hmatches, hsame, hfile, contentHash, Option.mem_def.mp hcontent]
      at hreflects
    cases hreflects
    rfl
  · intro h e path hlatest hplace hcap
    have he := Replica.mem_latestPerKey.mpr hlatest
    obtain ⟨reached, hreached, hsame, hfinal⟩ :=
      hclean.catchUp_own complete hfails hlayout he hplace
    rw [Reflects, hfinal]
    split
    · rename_i hmatches
      unfold ApplierState.diskMatches at hmatches
      split at hmatches
      · rename_i hcontent
        have hnone : reached.disk path.parts = none := by
          simpa using And.left (by simpa using hmatches)
        simp [contentHash, hcontent, hnone]
      · rename_i content hcontent
        simp only [KeyPath.size, Disk.fileSize, hsame, (hlayout.canonical e he path hplace).1,
          Bool.false_eq_true, if_false, decide_eq_true_eq] at hmatches
        rw [hsame, contentHash, hcontent]
        obtain habsent | ⟨bytes, hfile, -⟩ := (hlayout.free e he path hplace).self
        · simp [habsent] at hmatches
        · rw [hfile] at hmatches ⊢
          rw [h e path hlatest hplace hcap content hcontent bytes hfile (Option.some.inj hmatches)]
          rfl
    · refine ((hreached.settles hlayout hfails he).reflects_or_track hlayout hreached he he hplace hcap
        rfl rfl).resolve_right ?_
      rintro ⟨content, hcontent, hmissing, -⟩
      exact hmissing (hblobs e he content hcontent)

namespace Sample

theorem place_a : Place world (fileEntry 2 [97] 2 1) aPath :=
  ⟨⟨by decide +kernel, by decide +kernel⟩, keyToPath_a, by decide +kernel⟩

theorem withinCap_a : WithinCap world (fileEntry 2 [97] 2 1) := by
  rintro _ ⟨⟩
  decide

theorem catchUp_reflects_iff_missing : Reflects world
    (blank.catchUp (world.site [[2]]) (live rewritten).doc).disk aPath.parts
      (fileEntry 2 [97] 2 1) := by
  have hsub : ∀ e ∈ (live rewritten).doc.latestPerKey,
      e ∈ rewritten.filterMap LiveAction.entry := by
    decide +kernel
  have hlayout : Layout world blank.disk (live rewritten).doc.latestPerKey :=
    ⟨fun e he => layout_rewritten.len e (hsub e he),
      fun e he => layout_rewritten.canonical e (hsub e he),
      fun e he => layout_rewritten.free e (hsub e he),
      fun e he e' he' => layout_rewritten.apart e (hsub e he) e' (hsub e' he')⟩
  exact (catchUp_reflects_iff world [[2]] (live rewritten).doc blank (fun _ => rfl) hlayout nofun
    (by decide +kernel)).mpr (fun _ _ _ _ _ _ _ _ hfile => nomatch hfile) _ _ (by decide +kernel)
    place_a withinCap_a

/-- A file of the entry's length with another byte is left as it was. -/
theorem stale_file_kept :
    (live rewritten).doc.latest (KEY_PREFIX ++ [97]) = some (fileEntry 2 [97] 2 1) ∧
    Place world (fileEntry 2 [97] 2 1) aPath ∧ WithinCap world (fileEntry 2 [97] 2 1) ∧
    (ApplierState.catchUp (world.site [[2]])
      { blank with disk := blank.disk.set [[97]] (some (.file [9])) }
      (live rewritten).doc).disk aPath.parts = some (.file [9]) :=
  ⟨by decide +kernel, place_a, withinCap_a, by decide +kernel⟩

end Sample

end Artel.Fs
