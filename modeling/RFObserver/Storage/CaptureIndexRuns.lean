import RFObserver.Storage.CaptureIndex

set_option linter.unusedSectionVars false

namespace RFObserver

theorem joinPath_dir_ne (root : String) : joinPath root "auto" ≠ joinPath root "manual" := by
  intro same
  have lists := congrArg String.toList same
  simp only [joinPath, String.toList_append, List.append_cancel_left_eq] at lists
  exact absurd lists (by decide)

theorem dropWhile_name {name : List Char} (plain : '/' ∉ name) (rest : List Char) :
    (name ++ '/' :: rest).dropWhile (· ≠ '/') = '/' :: rest := by
  rw [List.dropWhile_append_of_pos fun c member => by simpa using fun same : c = '/' => plain (same ▸ member)]
  rfl

theorem parentPath_join {dir name : String} (plain : '/' ∉ name.toList) : parentPath (joinPath dir name) = dir := by
  have reversed : (dir ++ "/" ++ name).toList.reverse = name.toList.reverse ++ '/' :: dir.toList.reverse := by
    simp [String.toList_append]
  rw [parentPath, joinPath, reversed, dropWhile_name (by simpa using plain)]
  simp

theorem joinPath_inj {dir name name' : String} (same : joinPath dir name = joinPath dir name') : name = name' := by
  have lists := congrArg String.toList same
  simp only [joinPath, String.toList_append, List.append_cancel_left_eq] at lists
  exact String.toList_injective lists

/-- A .sc16 is the file its base stands for. -/
theorem dropSuffix_append {name suffix : String} (ends : endsWith name suffix) :
    dropSuffix name suffix ++ suffix = name := by
  obtain ⟨before, whole⟩ := ends
  refine String.toList_injective ?_
  rw [dropSuffix, String.toList_append, String.toList_ofList, ← whole]
  simp

namespace FileSystem

variable {T : Type*} (fs : FileSystem T)

theorem captureFiles_base {dir : String} {f : String × String × T × Nat} (member : f ∈ fs.captureFiles dir)
    (ends : endsWith f.1 ".sc16") : f.2.1 ++ ".sc16" = f.1 ∧ '/' ∉ f.1.toList := by
  obtain ⟨name, listed, found⟩ := List.mem_filterMap.mp member
  obtain ⟨base, isBase, stat⟩ := Option.bind_eq_some_iff.mp found
  obtain ⟨st, _, rfl⟩ := Option.map_eq_some_iff.mp stat
  constructor
  · rw [captureBase, if_pos ends] at isBase
    rw [← Option.some.inj isBase]
    exact dropSuffix_append ends
  · cases list : fs.names dir with
    | none => rw [list] at listed; cases listed
    | some names => rw [list] at listed; exact fs.plain dir names list name listed

theorem captureFiles_names (dir : String) : (fs.captureFiles dir).map Prod.fst |>.Sublist ((fs.names dir).getD []) := by
  unfold captureFiles
  induction (fs.names dir).getD [] with
  | nil => exact .slnil
  | cons name names ih =>
    rw [List.filterMap_cons]
    split
    · exact ih.cons name
    · rename_i f found
      obtain ⟨base, _, stat⟩ := Option.bind_eq_some_iff.mp found
      obtain ⟨st, _, rfl⟩ := Option.map_eq_some_iff.mp stat
      exact ih.cons_cons name

theorem scanDir_path {dir : String} :
    (fs.scanDir dir).map CaptureEntry.path =
      (((fs.captureFiles dir).filter fun f => endsWith f.1 ".sc16").map Prod.fst).map (joinPath dir) := by
  rw [scanDir, List.map_map, List.map_map]
  refine List.map_congr_left fun f member => ?_
  obtain ⟨member, ends⟩ := List.mem_filter.mp member
  exact congrArg (joinPath dir) (fs.captureFiles_base member (of_decide_eq_true ends)).1

theorem scanDir_dir {dir : String} : ∀ e ∈ fs.scanDir dir, e.dir = dir := by
  intro e member
  obtain ⟨f, kept, rfl⟩ := List.mem_map.mp member
  obtain ⟨member, ends⟩ := List.mem_filter.mp kept
  obtain ⟨whole, plain⟩ := fs.captureFiles_base member (of_decide_eq_true ends)
  rw [CaptureEntry.dir, whole]
  exact parentPath_join plain

theorem scanDir_nodup (dir : String) : ((fs.scanDir dir).map CaptureEntry.path).Nodup := by
  rw [scanDir_path]
  refine List.Nodup.map (fun name name' same => joinPath_inj same) ?_
  refine List.Nodup.sublist ((List.filter_sublist.map Prod.fst).trans (fs.captureFiles_names dir)) ?_
  cases list : fs.names dir with
  | none => exact .nil
  | some names => exact fs.distinct dir names list

end FileSystem

namespace LocalStorage

variable {T : Type*} [LinearOrder T] {s : LocalStorage T} {e : CaptureEntry T} {rest : List (CaptureEntry T)}

theorem size_perm {l l' : List (CaptureEntry T)} (perm : l.Perm l') : size l = size l' :=
  (perm.map _).sum_eq

@[simp] theorem size_cons : size (e :: rest) = e.size + size rest := by
  simp [size]

/-- Paths that are distinct make distinct keys. -/
theorem keys_nodup {l : List (CaptureEntry T)} (distinct : (l.map CaptureEntry.path).Nodup) :
    (l.map CaptureEntry.key).Nodup := by
  refine List.Nodup.of_map (fun k => (ofLex k).2) ?_
  rw [List.map_map]
  exact distinct

theorem rebuildIndex_indexed (apart : s.autoDir ≠ s.manualDir) (fs : FileSystem T) : (s.rebuildIndex fs).Indexed := by
  have distinct : ((fs.scanDir s.autoDir ++ fs.scanDir s.manualDir).map CaptureEntry.path).Nodup := by
    rw [List.map_append]
    refine (fs.scanDir_nodup _).append (fs.scanDir_nodup _) fun path inAuto inManual => ?_
    obtain ⟨e, member, rfl⟩ := List.mem_map.mp inAuto
    obtain ⟨e', member', same⟩ := List.mem_map.mp inManual
    have dirs := congrArg parentPath same
    exact apart (((fs.scanDir_dir e member).symm.trans dirs.symm).trans (fs.scanDir_dir e' member'))
  have sorts : ∀ p : CaptureEntry T → Bool, Bisect.Mirrors
      ((((fs.scanDir s.autoDir ++ fs.scanDir s.manualDir).filter p).map CaptureEntry.key).insertionSort (· ≤ ·))
      (((fs.scanDir s.autoDir ++ fs.scanDir s.manualDir).filter p).map CaptureEntry.key) := fun p =>
    .sort (keys_nodup (distinct.sublist (List.filter_sublist.map _)))
  refine ⟨apart, distinct, fun e member => ?_, fun dir home => ⟨_, if_pos home, sorts _⟩, fun dir home => if_pos home,
    sorts _, rfl⟩
  exact (List.mem_append.mp member).imp (fs.scanDir_dir e) (fs.scanDir_dir e)

/-- What a part of the entries is with one entry more. -/
theorem filter_perm {entries : List (CaptureEntry T)} (p : CaptureEntry T → Bool) (perm : entries.Perm (e :: rest)) :
    (entries.filter p).Perm (if p e then e :: rest.filter p else rest.filter p) :=
  (perm.filter p).trans (.of_eq List.filter_cons)

theorem find_perm {path : String} (found : s.find path = some e) :
    e.path = path ∧ s.entries.Perm (e :: s.entries.eraseP fun e => e.path = path) := by
  obtain ⟨isPath, before, after, split, others⟩ := List.find?_eq_some_iff_append.mp found
  refine ⟨of_decide_eq_true isPath, ?_⟩
  have none : ∀ e ∈ before, ¬ decide (e.path = path) = true := fun e member => by simpa using others e member
  rw [split, List.eraseP_append_right _ none, List.eraseP_cons, cond_eq_ite, if_pos isPath]
  exact List.perm_middle

theorem within_perm_of_eq {entries : List (CaptureEntry T)} (perm : entries.Perm (e :: rest)) :
    (entries.filter fun x => x.dir = e.dir).Perm (e :: rest.filter fun x => x.dir = e.dir) := by
  simpa using filter_perm (fun x => x.dir = e.dir) perm

theorem within_perm_of_ne {entries : List (CaptureEntry T)} (perm : entries.Perm (e :: rest)) {dir : String}
    (other : dir ≠ e.dir) : (entries.filter fun x => x.dir = dir).Perm (rest.filter fun x => x.dir = dir) := by
  simpa [Ne.symm other] using filter_perm (fun x => x.dir = dir) perm

/-- The index without one of its entries. -/
theorem removeLocked_indexed (indexed : s.Indexed) (path : String) : (s.removeLocked path).Indexed := by
  unfold removeLocked
  split
  · exact indexed
  · rename_i e found
    obtain ⟨rfl, perm⟩ := find_perm found
    have home := indexed.homes e (perm.mem_iff.mpr (List.mem_cons_self ..))
    obtain ⟨order, ordered, mirrors⟩ := indexed.ordered e.dir home
    have prio := filter_perm s.isAutoPriority perm
    rw [ordered, indexed.sized e.dir home]
    refine ⟨indexed.apart, indexed.distinct.sublist (List.eraseP_sublist.map _),
      fun x member => indexed.homes x (List.eraseP_subset member), fun dir known => ?_, fun dir known => ?_, ?_, ?_⟩
    · by_cases here : dir = e.dir
      · subst here
        refine ⟨Bisect.removeSorted order e.key, by simp only [Function.update_self], Bisect.Mirrors.remove ?_⟩
        exact mirrors.congr ((within_perm_of_eq perm).map CaptureEntry.key)
      · obtain ⟨order', ordered', mirrors'⟩ := indexed.ordered dir known
        refine ⟨order', by simp only [Function.update_of_ne here, ordered'], ?_⟩
        exact mirrors'.congr ((within_perm_of_ne perm here).map CaptureEntry.key)
    · by_cases here : dir = e.dir
      · subst here
        have whole := size_perm (within_perm_of_eq perm)
        rw [size_cons] at whole
        simp only [Function.update_self, within, whole]
        exact congrArg some (by omega)
      · have same := size_perm (within_perm_of_ne perm here)
        simp only [Function.update_of_ne here, indexed.sized dir known, within, same]
    · by_cases isPrio : s.isAutoPriority e = true
      · rw [if_pos isPrio] at prio
        simp only [isPrio, if_true]
        exact (indexed.prioOrdered.congr (prio.map _)).remove
      · rw [if_neg isPrio] at prio
        simp only [isPrio]
        exact indexed.prioOrdered.congr (prio.map _)
    · by_cases isPrio : s.isAutoPriority e = true
      · rw [if_pos isPrio] at prio
        have whole := indexed.prioSized.trans (size_perm prio)
        rw [size_cons] at whole
        simp only [isPrio, if_true]
        exact (sub_eq_of_eq_add' whole)
      · rw [if_neg isPrio] at prio
        simp only [isPrio]
        exact indexed.prioSized.trans (size_perm prio)

/-- The index with one entry more. -/
theorem addLocked_indexed (indexed : s.Indexed) (home : e.dir = s.autoDir ∨ e.dir = s.manualDir)
    (fresh : e.path ∉ s.entries.map CaptureEntry.path) : (s.addLocked e).Indexed := by
  obtain ⟨order, ordered, mirrors⟩ := indexed.ordered e.dir home
  have perm : (s.entries ++ [e]).Perm (e :: s.entries) := List.perm_append_comm
  have prio := filter_perm s.isAutoPriority perm
  have freshKey : ∀ p : CaptureEntry T → Bool, e.key ∉ (s.entries.filter p).map CaptureEntry.key := by
    intro p member
    obtain ⟨x, inEntries, same⟩ := List.mem_map.mp member
    have samePath : x.path = e.path := congrArg (fun k => (ofLex k).2) same
    exact fresh (samePath ▸ List.mem_map_of_mem (List.mem_filter.mp inEntries).1)
  unfold addLocked
  rw [ordered, indexed.sized e.dir home]
  refine ⟨indexed.apart, ?_, fun x member => ?_, fun dir known => ?_, fun dir known => ?_, ?_, ?_⟩
  · exact (perm.map CaptureEntry.path).nodup_iff.mpr (List.nodup_cons.mpr ⟨fresh, indexed.distinct⟩)
  · rcases List.mem_cons.mp (perm.mem_iff.mp member) with rfl | old
    · exact home
    · exact indexed.homes x old
  · by_cases here : dir = e.dir
    · subst here
      refine ⟨Bisect.insort order e.key, by simp only [Function.update_self], ?_⟩
      exact (mirrors.insort (freshKey _)).congr ((within_perm_of_eq perm).map CaptureEntry.key).symm
    · obtain ⟨order', ordered', mirrors'⟩ := indexed.ordered dir known
      refine ⟨order', by simp only [Function.update_of_ne here, ordered'], ?_⟩
      exact mirrors'.congr ((within_perm_of_ne perm here).map CaptureEntry.key).symm
  · by_cases here : dir = e.dir
    · subst here
      have whole := size_perm (within_perm_of_eq perm)
      rw [size_cons] at whole
      simp only [Function.update_self, within, whole]
      exact congrArg some (add_comm ..)
    · have same := size_perm (within_perm_of_ne perm here)
      simp only [Function.update_of_ne here, indexed.sized dir known, within, same]
  · by_cases isPrio : s.isAutoPriority e = true
    · rw [if_pos isPrio] at prio
      simp only [isPrio, if_true]
      exact (indexed.prioOrdered.insort (freshKey _)).congr (prio.map _).symm
    · rw [if_neg isPrio] at prio
      simp only [isPrio]
      exact indexed.prioOrdered.congr (prio.map _).symm
  · by_cases isPrio : s.isAutoPriority e = true
    · rw [if_pos isPrio] at prio
      have whole := size_perm prio
      rw [size_cons] at whole
      simp only [isPrio, if_true, indexed.prioSized]
      exact (add_comm ..).trans whole.symm
    · rw [if_neg isPrio] at prio
      simp only [isPrio]
      exact indexed.prioSized.trans (size_perm prio).symm

theorem removeLocked_dirs (path : String) :
    (s.removeLocked path).autoDir = s.autoDir ∧ (s.removeLocked path).manualDir = s.manualDir := by
  unfold removeLocked
  split
  · exact ⟨rfl, rfl⟩
  · split <;> exact ⟨rfl, rfl⟩

theorem removeLocked_entries {path : String} (found : s.find path = some e) :
    (s.removeLocked path).entries = s.entries.eraseP fun x => x.path = path := by
  rw [removeLocked, found]
  simp only
  split <;> rfl

theorem removeLocked_fresh (indexed : s.Indexed) (path : String) :
    path ∉ (s.removeLocked path).entries.map CaptureEntry.path := by
  cases found : s.find path with
  | none =>
    have absent := List.find?_eq_none.mp found
    rw [removeLocked, found]
    intro member
    obtain ⟨e, inEntries, isPath⟩ := List.mem_map.mp member
    exact absent e inEntries (decide_eq_true isPath)
  | some e =>
    obtain ⟨rfl, perm⟩ := find_perm found
    rw [removeLocked_entries found]
    exact (List.nodup_cons.mp ((perm.map CaptureEntry.path).nodup_iff.mp indexed.distinct)).1

/-- Replacing one capture's entry, or adding one. -/
theorem replace_indexed (indexed : s.Indexed) (home : e.dir = s.autoDir ∨ e.dir = s.manualDir) :
    ((s.removeLocked e.path).addLocked e).Indexed := by
  have dirs := s.removeLocked_dirs e.path
  refine addLocked_indexed (removeLocked_indexed indexed e.path) ?_ (removeLocked_fresh indexed e.path)
  rwa [dirs.1, dirs.2]

theorem track_indexed (indexed : s.Indexed) (fs : FileSystem T) (path : String) : (s.track fs path).Indexed := by
  unfold track
  split
  · rename_i home
    cases fs.stat path with
    | none => exact removeLocked_indexed indexed path
    | some st =>
      exact replace_indexed (e := ⟨path, st.1, fs.captureSize path, (fs.stat (FileSystem.markerPath path)).isSome⟩)
        indexed home
  · exact indexed

theorem promote_indexed (indexed : s.Indexed) (path : String) : (s.promote path).Indexed := by
  unfold promote
  split
  · exact indexed
  · rename_i e found
    obtain ⟨rfl, perm⟩ := find_perm found
    split
    · exact indexed
    · exact replace_indexed (e := { e with priority := true }) indexed
        (indexed.homes e (perm.mem_iff.mpr (List.mem_cons_self ..)))

theorem markOne_indexed (indexed : s.Indexed) (path : String) (touch : Touch) : (s.markOne path touch).Indexed := by
  unfold markOne
  split
  · exact indexed
  · split
    · exact indexed
    · cases touch with
      | failed => exact indexed
      | touched => exact promote_indexed indexed path
      | evicted => exact promote_indexed (removeLocked_indexed indexed path) path

theorem markPriority_indexed (indexed : s.Indexed) (paths : List (String × Touch)) :
    (s.markPriority paths).Indexed := by
  unfold markPriority
  induction paths generalizing s with
  | nil => exact indexed
  | cons p paths ih => exact ih (markOne_indexed indexed p.1 p.2)

theorem create_indexed (fs : FileSystem T) (root : String) : (create fs root).Indexed :=
  rebuildIndex_indexed (joinPath_dir_ne root) fs

theorem step_indexed (indexed : s.Indexed) {act : Act T} {s' : LocalStorage T} (settled : s.Settled act)
    (goes : s.step act = some s') : s'.Indexed := by
  cases act with
  | setStoragePath fs root progress =>
    obtain rfl := Option.some.inj goes
    cases progress with
    | noDirectories => exact indexed
    | noScan =>
      obtain ⟨auto, manual⟩ := settled rfl
      rw [setStoragePath, auto, manual]
      exact indexed
    | done => exact rebuildIndex_indexed (joinPath_dir_ne root) fs
  | rebuildIndex fs =>
    obtain rfl := Option.some.inj goes
    exact rebuildIndex_indexed indexed.apart fs
  | track fs path =>
    obtain rfl := Option.some.inj goes
    exact track_indexed indexed fs path
  | forget path | deleteCapture path =>
    obtain rfl := Option.some.inj goes
    exact removeLocked_indexed indexed path
  | markPriority paths =>
    obtain rfl := Option.some.inj goes
    exact markPriority_indexed indexed paths

theorem find_entry (indexed : s.Indexed) (member : e ∈ s.entries) : s.find e.path = some e := by
  cases found : s.find e.path with
  | none => exact absurd (decide_eq_true rfl) (List.find?_eq_none.mp found e member)
  | some e' =>
    obtain ⟨samePath, perm⟩ := find_perm found
    have inEntries := perm.mem_iff.mpr (List.mem_cons_self ..)
    exact congrArg some (List.inj_on_of_nodup_map indexed.distinct inEntries member samePath)

/-- Every key of a list of entries' keys is looked up. -/
theorem lookup_keys (indexed : s.Indexed) (keys : List (T ×ₗ String))
    (known : ∀ k ∈ keys, k ∈ s.entries.map CaptureEntry.key) :
    ∃ found : List (CaptureEntry T), keys.mapM (fun k => s.find (ofLex k).2) = some found ∧
      found.map CaptureEntry.key = keys ∧ ∀ e ∈ found, e ∈ s.entries := by
  induction keys with
  | nil => exact ⟨[], rfl, rfl, nofun⟩
  | cons k keys ih =>
    obtain ⟨e, member, rfl⟩ := List.mem_map.mp (known k (List.mem_cons_self ..))
    obtain ⟨found, looked, same, inEntries⟩ := ih fun k later => known k (List.mem_cons_of_mem _ later)
    have first : s.find (ofLex e.key).2 = some e := find_entry indexed member
    refine ⟨e :: found, ?_, by rw [List.map_cons, same], fun x member' => ?_⟩
    · rw [List.mapM_cons, first, looked]
      rfl
    · rcases List.mem_cons.mp member' with rfl | later
      · exact member
      · exact inEntries x later

/-- auto/ and manual/ have all entries between them. -/
theorem within_append (indexed : s.Indexed) : (s.within s.autoDir ++ s.within s.manualDir).Perm s.entries := by
  have split := List.filter_append_perm (fun e : CaptureEntry T => decide (e.dir = s.autoDir)) s.entries
  refine (List.Perm.append_left _ (.of_eq (List.filter_congr fun e member => ?_))).trans split
  rcases indexed.homes e member with home | home
  · simp [home, indexed.apart]
  · simp [home, Ne.symm indexed.apart]

theorem lists (indexed : s.Indexed) : s.Lists := by
  intro offset limit origins
  obtain ⟨auto, autoOrder, autoKeys⟩ := indexed.ordered s.autoDir (Or.inl rfl)
  obtain ⟨manual, manualOrder, manualKeys⟩ := indexed.ordered s.manualDir (Or.inr rfl)
  let merged := auto.reverse.merge manual.reverse fun a b => b ≤ a
  have perm : merged.Perm (s.entries.map CaptureEntry.key) := by
    refine (List.merge_perm_append _).trans ?_
    refine (List.Perm.append (auto.reverse_perm.trans autoKeys.perm)
      (manual.reverse_perm.trans manualKeys.perm)).trans ?_
    rw [← List.map_append]
    exact (within_append indexed).map _
  have descends : ∀ {order : List (T ×ₗ String)}, order.Pairwise (· < ·) →
      order.reverse.Pairwise fun a b => decide (b ≤ a) = true := fun sorted =>
    List.pairwise_reverse.mpr (sorted.imp fun less => decide_eq_true less.le)
  have sorted : merged.Pairwise fun a b => b < a := by
    have weakly := @List.pairwise_merge _ (fun a b : T ×ₗ String => decide (b ≤ a))
      (fun a b c ab bc => decide_eq_true ((of_decide_eq_true bc).trans (of_decide_eq_true ab)))
      (fun a b => by simpa using le_total b a) _ _ (descends autoKeys.sorted) (descends manualKeys.sorted)
    have distinct := perm.nodup_iff.mpr (keys_nodup indexed.distinct)
    exact weakly.imp₂ (fun a b less other => lt_of_le_of_ne (of_decide_eq_true less) (Ne.symm other)) distinct
  obtain ⟨found, looked, keys, inEntries⟩ := lookup_keys indexed merged fun k member => perm.mem_iff.mp member
  have byKey : found.Pairwise fun e e' => e'.key < e.key := by
    rw [← keys] at sorted
    exact List.pairwise_map.mp sorted
  have all : found.Perm s.entries := by
    have distinct : found.Nodup := by
      refine byKey.imp fun {e e'} less same => ?_
      rw [same] at less
      exact lt_irrefl _ less
    refine (List.perm_ext_iff_of_nodup distinct (.of_map _ indexed.distinct)).mpr fun e =>
      ⟨inEntries e, fun member => ?_⟩
    have inMerged : e.key ∈ found.map CaptureEntry.key := by
      rw [keys]
      exact perm.mem_iff.mpr (List.mem_map_of_mem member)
    obtain ⟨e', there, same⟩ := List.mem_map.mp inMerged
    exact List.inj_on_of_nodup_map (keys_nodup indexed.distinct) (inEntries e' there) member same ▸ there
  refine ⟨found.filter fun e => origins.all fun origins => e.origin ∈ origins, all.filter _, byKey.filter _, ?_⟩
  rw [capturesNewestFirst, autoOrder, manualOrder]
  simp only [Option.bind_eq_bind, Option.bind_some]
  rw [show auto.reverse.merge manual.reverse (fun a b => b ≤ a) = merged from rfl, looked]
  rfl

/-- In every run whose storage-path changes go through or change nothing, the
capture index is consistent. -/
theorem Reach.consistent (reach : Reach Settled s) : s.Consistent := by
  obtain ⟨fs, root, reach⟩ := reach
  have indexed := reach.invariant (create_indexed fs root) fun _ _ _ indexed settled goes =>
    step_indexed indexed settled goes
  exact ⟨indexed, lists indexed⟩

theorem empty_le (path : String) : "" ≤ path :=
  not_lt.mp fun less => absurd (String.lt_iff_toList_lt.mp less) (List.not_lt_nil _)

theorem autoCapturesSince_eq (indexed : s.Indexed) (mtime : T) :
    ∃ order, s.order s.autoDir = some order ∧ s.autoCapturesSince mtime =
      some ((order.filter fun k => mtime ≤ (ofLex k).1).map fun k => (ofLex k).2) := by
  obtain ⟨order, ordered, mirrors⟩ := indexed.ordered s.autoDir (Or.inl rfl)
  refine ⟨order, ordered, ?_⟩
  rw [autoCapturesSince, ordered, Option.map_some, Bisect.drop_bisectLeft mirrors.sorted]
  congr 3
  funext k
  have bound : toLex (mtime, "") ≤ k ↔ mtime ≤ (ofLex k).1 := by
    rw [Prod.Lex.le_iff, le_iff_lt_or_eq (a := mtime)]
    exact or_congr_right (and_iff_left (empty_le _))
  exact decide_eq_decide.mpr bound

/-- A disk with these files and no directory that lists them. -/
def diskOf (files : List (String × Nat × Nat)) : FileSystem Nat :=
  { names := fun _ => none, stat := fun path => files.lookup path, lstat := fun path => files.lookup path,
    distinct := nofun, plain := nofun }

/-- A capture is recorded, marked, its companion grows, an older one is deleted. -/
def recordAndMark : List (Act Nat) :=
  [.track (diskOf [("/d/auto/a.sc16", 5, 100)]) "/d/auto/a.sc16",
    .track (diskOf [("/d/auto/b.sc16", 3, 10)]) "/d/auto/b.sc16",
    .markPriority [("/d/auto/a.sc16", .touched)],
    .track (diskOf [("/d/auto/a.sc16", 5, 100), ("/d/auto/a.json", 6, 20), ("/d/auto/a.priority", 5, 0)])
      "/d/auto/a.sc16",
    .deleteCapture "/d/auto/b.sc16"]

theorem Reach.consistent_recordAndMark :
    ∃ s, Runs.follow step (create (diskOf []) "/d") recordAndMark = some s ∧ s.prioBytes = 120 ∧
      s.bytes "/d/auto" = some 120 ∧ s.Consistent := by
  have meets : Runs.Meets step Settled (create (diskOf []) "/d") recordAndMark := by decide +kernel
  have final : (Runs.follow step (create (diskOf []) "/d") recordAndMark).map (fun s =>
      (s.prioBytes, s.bytes "/d/auto")) = some (120, some 120) := by decide +kernel
  obtain ⟨s, goes, bytes⟩ := Option.map_eq_some_iff.mp final
  exact ⟨s, goes, (Prod.mk.inj bytes).1, (Prod.mk.inj bytes).2,
    Reach.consistent ⟨_, _, Runs.Reach.start.follow meets goes⟩⟩

/-- The storage path changes, and moving an old capture there raises: the new
directories are in use and the index does not know them. -/
theorem consistent_fails : ¬ ∀ s : LocalStorage Nat, Reach (fun _ _ => True) s → s.Consistent := by
  intro consistent
  let s := (create (diskOf []) "/d").setStoragePath (diskOf []) "/e" .noScan
  have reach : Reach (fun _ _ => True) s :=
    ⟨diskOf [], "/d", .next (a := .setStoragePath (diskOf []) "/e" .noScan) .start trivial rfl⟩
  obtain ⟨order, ordered, _⟩ := (consistent s reach).1.ordered s.autoDir (Or.inl rfl)
  have unknown : s.order s.autoDir = none := by decide +kernel
  rw [unknown] at ordered
  cases ordered

end LocalStorage
end RFObserver
