import StackSynth.Packaging
import StackSynth.Proofs.Artifact
import StackSynth.Proofs.Looking
import StackSynth.Proofs.Sparing

/-!
# Pruning — which versions go, and what stays

Pruning looks at the children of a staging directory one after another and removes those that
another version replaced.  A child is looked up when its turn comes, from the path of the staging
directory.  So what has been removed before it can be in its way, if that path or the child itself
leads through a version: then it is not found, and stays.

* `Name.IsVersion`, `Packaging.Replaced` — the names of versions, octet by octet, and the versions
  that can go;
* `FileSystem.Without` — some children of a directory are gone with all below them, and nothing
  else has changed;
* `Packaging.prune_rel` — what pruning does if every removal does it;
* `Packaging.Swept` — what pruning leaves of a staging directory, with `Swept.mem_iff`;
* `Packaging.prune_swept` — every way in which pruning ends.
-/

namespace StackSynth

/-! ## Names of versions -/

/-- The octet of a decimal digit or of a small letter up to f. -/
def IsHexOctet (b : UInt8) : Prop :=
  48 ≤ b ∧ b ≤ 57 ∨ 97 ≤ b ∧ b ≤ 102

theorem isHexOctet_of_char {c : Char} (hex : Bytes.IsHexChar c) :
    IsHexOctet (UInt8.ofNat c.toNat) := by
  have bounds : 48 ≤ c.toNat ∧ c.toNat ≤ 57 ∨ 97 ≤ c.toNat ∧ c.toNat ≤ 102 := hex
  simp only [IsHexOctet, UInt8.le_iff_toNat_le, UInt8.toNat_ofNat', UInt8.reduceToNat]
  omega

theorem isHexChar_of_octet {b : UInt8} (hex : IsHexOctet b) :
    Bytes.IsHexChar (Char.ofNat b.toNat) ∧ (Char.ofNat b.toNat).toNat = b.toNat := by
  have small := b.toNat_lt
  have value : (Char.ofNat b.toNat).toNat = b.toNat := by
    rw [Char.ofNat, dif_pos (Or.inl (by omega))]
    rfl
  have bounds : 48 ≤ b.toNat ∧ b.toNat ≤ 57 ∨ 97 ≤ b.toNat ∧ b.toNat ≤ 102 := hex
  rw [← value] at bounds
  exact ⟨bounds, value⟩

/-- Sixteen octets, each of a digit or of a small letter up to f. -/
structure Name.IsVersion (name : Name) : Prop where
  length : name.bytes.length = ContentHash.shortLength
  octets : ∀ b ∈ name.bytes, IsHexOctet b

theorem Packaging.isVersion_ofList {cs : List Char} : isVersion (String.ofList cs) = true
    ↔ cs.length = ContentHash.shortLength ∧ ∀ c ∈ cs, Bytes.IsHexChar c := by
  simp [isVersion, Bytes.IsHexChar]

/-- The octets of digits are the digits of octets. -/
theorem Name.isVersion_iff_exists {name : Name} : name.IsVersion
    ↔ ∃ text, name.text? = some text ∧ Packaging.isVersion text = true := by
  constructor
  · intro version
    let cs := name.bytes.map fun b => Char.ofNat b.toNat
    have hex : ∀ c ∈ cs, Bytes.IsHexChar c := by
      intro c member
      obtain ⟨b, inside, rfl⟩ := List.mem_map.mp member
      exact (isHexChar_of_octet (version.octets b inside)).1
    have spelled : Utf8.encode (String.ofList cs) = name.bytes := by
      rw [Utf8.encode_ofList_ascii fun c member => (hex c member).ascii, List.map_map]
      refine (List.map_congr_left fun b inside => ?_).trans (List.map_id _)
      simp [(isHexChar_of_octet (version.octets b inside)).2]
    refine ⟨String.ofList cs, ?_, Packaging.isVersion_ofList.mpr ⟨?_, hex⟩⟩
    · rw [Name.text?, ← spelled, Utf8.decode?_encode]
    · rw [List.length_map, version.length]
  · rintro ⟨text, isText, version⟩
    obtain ⟨cs, rfl⟩ : ∃ cs, text = String.ofList cs := ⟨text.toList, by simp⟩
    obtain ⟨length, hex⟩ := Packaging.isVersion_ofList.mp version
    have spelled : name.bytes = cs.map fun c => UInt8.ofNat c.toNat := by
      rw [← Utf8.encode_of_decode? isText]
      exact Utf8.encode_ofList_ascii fun c member => (hex c member).ascii
    refine ⟨by rw [spelled, List.length_map, length], fun b member => ?_⟩
    rw [spelled] at member
    obtain ⟨c, inside, rfl⟩ := List.mem_map.mp member
    exact isHexOctet_of_char (hex c inside)

namespace FileSystem

variable {fs mid after : FileSystem} {base : Location} {staging : Path} {name : Name}
  {gone : List Name}

/-! ## Without some children -/

/-- Some children of a directory are gone with all below them, and nothing else has changed. -/
structure Without (base : Location) (gone : List Name) (fs after : FileSystem) : Prop where
  current : after.current = fs.current
  lost : ∀ name ∈ gone, ∀ l, name :: base <:+ l → after.get? l = none
  kept : ∀ l, (∀ name ∈ gone, ¬ name :: base <:+ l) → after.get? l = fs.get? l

theorem Without.refl (base : Location) (fs : FileSystem) : Without base [] fs fs :=
  ⟨rfl, by simp, fun _ _ => rfl⟩

theorem Without.extends (without : Without base gone fs after) : Extends after fs where
  current := without.current.symm
  objects := by
    intro l object stands
    by_cases lost : ∃ name ∈ gone, name :: base <:+ l
    · obtain ⟨name, member, within⟩ := lost
      rw [without.lost name member l within] at stands
      cases stands
    · rw [← without.kept l fun name member within => lost ⟨name, member, within⟩]
      exact stands

theorem extends_eraseTree (fs : FileSystem) (name : Name) (base : Location) :
    Extends (fs.eraseTree (name :: base)) fs where
  current := rfl
  objects := by
    intro l object stands
    rw [get?_eraseTree _ _ _ (List.cons_ne_nil name base)] at stands
    split at stands
    · cases stands
    · exact stands

theorem Without.cons (without : Without base gone (fs.eraseTree (name :: base)) after) :
    Without base (name :: gone) fs after := by
  have erased := fun l => get?_eraseTree fs (name :: base) l (List.cons_ne_nil name base)
  refine ⟨without.current, fun other member l within => ?_, fun l apart => ?_⟩
  · rcases List.mem_cons.mp member with rfl | member
    · -- What is gone at first does not come back.
      refine Option.eq_none_iff_forall_ne_some.mpr fun object stands => ?_
      have before := without.extends.objects stands
      rw [erased, if_pos (Location.within_iff.mpr within)] at before
      cases before
    · exact without.lost other member l within
  · rw [List.forall_mem_cons] at apart
    rw [without.kept l apart.2, erased, if_neg]
    exact fun within => apart.1 (Location.within_iff.mp within)

theorem names_ok_iff {p : Path} {children : List Name} : fs.names p = .ok children
    ↔ ∃ l, fs.stat p = .ok (l, .directory) ∧ fs.children l = children := by
  unfold names
  cases fs.stat p with
  | error fault => simp [bind, Except.bind]
  | ok found =>
      obtain ⟨l, object⟩ := found
      cases object <;>
        simp [bind, Except.bind, pure, Except.pure, throw, throwThe, MonadExceptOf.throw]

/-- Something stands where a child is found, perhaps a link. -/
theorem child_of_stat {left : Nat} {found : Location × Object}
    (reached : fs.reach false staging = .ok (left, base))
    (ok : fs.stat (staging.child name) = .ok found) :
    ¬ nameLimit < name.bytes.length ∧ ∃ object, fs.get? (name :: base) = some object := by
  rw [stat_child (reach_of_stat_child ok).1 reached, walk] at ok
  split at ok
  · cases ok
  · rename_i short
    refine ⟨short, Option.ne_none_iff_exists'.mp fun nothing => ?_⟩
    simp [nothing, Except.bind] at ok

/-- What is in another child stays, and so does what is on the way there. -/
theorem Without.along (without : Without base gone fs after) (stays : name ∉ gone) {l m : Location}
    (way : l <:+ m) (inside : name :: base <:+ m) : after.get? l = fs.get? l := by
  refine without.kept l fun other member deeper => stays ?_
  have same := Location.eq_of_suffix (deeper.trans way) inside (by simp)
  exact (List.cons.inj same).1 ▸ member

/-- A path that led anywhere still does, unless it looks at a place where something is gone. -/
theorem Without.reach (without : Without base gone fs after) {p : Path} {left : Nat} {l : Location}
    (reached : fs.reach false p = .ok (left, l)) : (∃ left', after.reach false p = .ok (left', l))
      ∨ ∃ name ∈ gone, ∃ m, name :: base <:+ m ∧ LooksAt fs p m := by
  by_cases passed : ∃ name ∈ gone, ∃ m, name :: base <:+ m ∧ LooksAt fs p m
  · exact Or.inr passed
  · exact Or.inl (reach_looks without.current (fun m looks => without.kept m
      fun name member within => passed ⟨name, member, m, within, looks⟩) reached)

/-- A child that is found can be removed; a link goes without what it leads to. -/
theorem removeAll_child {left : Nat} {found : Location × Object}
    (reached : fs.reach false staging = .ok (left, base))
    (ok : fs.stat (staging.child name) = .ok found) :
    fs.removeAll (staging.child name) = .ok (fs.eraseTree (name :: base)) := by
  obtain ⟨short, object, stands⟩ := child_of_stat reached ok
  have located : fs.locate false (staging.child name) = .ok ⟨name :: base, some object⟩ := by
    rw [locate_child false (reach_of_stat_child ok).1, reached]
    cases object <;> simp [Except.bind, walk, short, stands]
  rw [removeAll, lstat, located]
  rfl

/-- It is not found again, since the path leads to the same directory if it leads to one. -/
theorem stat_child_erased {left : Nat} (reached : fs.reach false staging = .ok (left, base))
    (found : Location × Object) :
    (fs.eraseTree (name :: base)).stat (staging.child name) ≠ .ok found := by
  intro ok
  obtain ⟨good, left', base', entered⟩ := reach_of_stat_child ok
  obtain ⟨rfl, rfl⟩ := Prod.mk.inj (Except.ok.inj
    (reached.symm.trans (reach_extends (extends_eraseTree fs name base) entered)))
  have nothing : (fs.eraseTree (name :: base)).get? (name :: base) = none := by
    rw [get?_eraseTree _ _ _ (List.cons_ne_nil name base),
      if_pos (Location.within_iff.mpr (List.suffix_refl _))]
  obtain ⟨-, same, stands⟩ := (stat_child_iff good entered (by simp [nothing])).mp ok
  rw [same, nothing] at stands
  cases stands

end FileSystem

namespace Packaging

open FileSystem

variable {fs mid after : FileSystem} {base : Location} {staging : Path} {keep : String}
  {name : Name} {gone children : List Name}

/-! ## Replaced versions -/

/-- A child with the name of a version other than `keep`, which leads to a directory. -/
structure Replaced (fs : FileSystem) (staging : Path) (keep : String) (name : Name) : Prop where
  version : name.IsVersion
  other : name.bytes ≠ Utf8.encode keep
  directory : ∃ l, fs.stat (staging.child name) = .ok (l, .directory)

theorem isStale_iff : isStale fs staging keep name = true ↔ Replaced fs staging keep name := by
  have apart : ∀ {text}, name.text? = some text → (text ≠ keep ↔ name.bytes ≠ Utf8.encode keep) := by
    intro text isText
    rw [← Utf8.encode_of_decode? isText]
    exact not_congr ⟨congrArg Utf8.encode, Utf8.encode_inj⟩
  constructor
  · intro stale
    unfold isStale at stale
    split at stale
    · cases stale
    · rename_i text isText
      simp only [Bool.and_eq_true, bne_iff_ne] at stale
      exact ⟨Name.isVersion_iff_exists.mpr ⟨text, isText, stale.1.2⟩, (apart isText).mp stale.1.1,
        isDirectory_iff.mp stale.2⟩
  · rintro ⟨version, other, directory⟩
    obtain ⟨text, isText, right⟩ := Name.isVersion_iff_exists.mp version
    simp [isStale, isText, (apart isText).mpr other, right, isDirectory_iff.mpr directory]

/-- It does not have the text of `keep`. -/
theorem Replaced.text (replaced : Replaced fs staging keep name) : name.text? ≠ some keep :=
  fun same => replaced.other (Utf8.encode_of_decode? same).symm

/-- What is replaced was replaced when there was more. -/
theorem Replaced.of_extends (extends' : Extends after fs)
    (replaced : Replaced after staging keep name) : Replaced fs staging keep name where
  version := replaced.version
  other := replaced.other
  directory := replaced.directory.imp fun _ found => stat_extends extends' found

/-- What is not replaced any more has a look-up that looks at a place where something is gone. -/
theorem Replaced.looks (without : Without base gone fs after)
    (replaced : Replaced fs staging keep name) (done : ¬ Replaced after staging keep name) :
    ∃ other ∈ gone, ∃ l, other :: base <:+ l ∧ LooksAt fs (staging.child name) l := by
  by_contra clear
  refine done ⟨replaced.version, replaced.other, ?_⟩
  rw [stat_looks without.current fun l looks => without.kept l fun other member within =>
    clear ⟨other, member, l, within, looks⟩]
  exact replaced.directory

/-! ## Removing one after another -/

theorem prune_of_names {count : Nat} (listed : fs.names staging = .ok children)
    (run : pruneAmong staging keep children fs = .ok count after) :
    prune staging keep fs = .ok count after := by
  rw [prune, listed]
  exact run

theorem pruneAmong_kept {count : Nat} (kept : ¬ Replaced fs staging keep name)
    (others : pruneAmong staging keep children fs = .ok count after) :
    pruneAmong staging keep (name :: children) fs = .ok count after := by
  have known : isStale fs staging keep name = false :=
    Bool.eq_false_iff.mpr fun stale => kept (isStale_iff.mp stale)
  rw [pruneAmong]
  exact Action.bind_ok_iff.mpr ⟨false, fs, Action.query_ok_iff.mpr ⟨congrArg _ known, rfl⟩, others⟩

theorem pruneAmong_removed {count : Nat} (replaced : Replaced fs staging keep name)
    (removed : fs.removeAll (staging.child name) = .ok mid)
    (others : pruneAmong staging keep children mid = .ok count after) :
    pruneAmong staging keep (name :: children) fs = .ok (count + 1) after := by
  rw [pruneAmong]
  refine Action.bind_ok_iff.mpr
    ⟨true, fs, Action.query_ok_iff.mpr ⟨congrArg _ (isStale_iff.mpr replaced), rfl⟩, ?_⟩
  refine Action.bind_ok_iff.mpr
    ⟨(), mid, Action.mapError_ok_iff.mpr (Action.step_ok_iff.mpr removed), ?_⟩
  exact Action.bind_ok_iff.mpr ⟨count, after, others, rfl⟩

theorem pruneAmong_rel {R : FileSystem → FileSystem → Prop} (refl : ∀ fs, R fs fs)
    (trans : ∀ {fs mid after}, R fs mid → R mid after → R fs after)
    (step : ∀ {fs after name}, Replaced fs staging keep name →
      fs.removeAll (staging.child name) = .ok after → R fs after)
    (ends : Action.Ends (pruneAmong staging keep children) fs after) : R fs after := by
  induction children generalizing fs with
  | nil => exact Action.ends_pure ends ▸ refl fs
  | cons name rest ih =>
      rw [pruneAmong] at ends
      rcases Action.ends_bind ends with asked | ⟨stale, _, asked, more⟩
      · exact Action.ends_query asked ▸ refl fs
      obtain ⟨known, rfl⟩ := Action.query_ok_iff.mp asked
      cases stale with
      | false => exact ih more
      | true =>
          have replaced := isStale_iff.mp (Except.ok.inj known)
          -- Removing one version is a step of the relation, or it fails and nothing changes.
          have removing : ∀ {now}, Action.Ends (Action.mapError (fault staging)
              (Action.step fun fs => fs.removeAll (staging.child name))) fs now → R fs now := by
            intro now ends
            rcases Action.ends_step (Action.ends_mapError ends) with rfl | removed
            · exact refl _
            · exact step replaced removed
          rcases Action.ends_bind more with failed | ⟨_, mid, removed, others⟩
          · exact removing failed
          · have first := removing (Or.inl ⟨_, removed⟩)
            rcases Action.ends_bind others with ends | ⟨_, last, counted, done⟩
            · exact trans first (ih ends)
            · obtain rfl := Action.ends_pure done
              exact trans first (ih (Or.inl ⟨_, counted⟩))

/-- Where nothing is replaced, nothing is removed. -/
theorem prune_none (listed : fs.names staging = .ok children)
    (none : ∀ name ∈ children, ¬ Replaced fs staging keep name) : prune staging keep fs = .ok 0 fs := by
  refine prune_of_names listed ?_
  clear listed
  induction children with
  | nil => rfl
  | cons name rest ih =>
      rw [List.forall_mem_cons] at none
      exact pruneAmong_kept none.1 (ih none.2)

/-- What every removal of a replaced version does, pruning does, however it ends. -/
theorem prune_rel {R : FileSystem → FileSystem → Prop} (refl : ∀ fs, R fs fs)
    (trans : ∀ {fs mid after}, R fs mid → R mid after → R fs after)
    (step : ∀ {fs after name}, Replaced fs staging keep name →
      fs.removeAll (staging.child name) = .ok after → R fs after)
    (ends : Action.Ends (prune staging keep) fs after) : R fs after := by
  unfold Action.Ends prune at ends
  cases listed : fs.names staging with
  | ok children =>
      simp only [listed] at ends
      exact pruneAmong_rel refl trans step ends
  | error reason =>
      obtain rfl : after = fs := by
        cases reason <;> simp [listed] at ends <;> exact ends.symm
      exact refl after

/-! ## Sweeping -/

/-- Some of the children are gone: they were replaced, and none of the children is replaced now. -/
structure SweptAmong (staging : Path) (keep : String) (base : Location) (children gone : List Name)
    (fs after : FileSystem) : Prop where
  once : gone.Nodup
  replaced : ∀ name ∈ gone, Replaced fs staging keep name
  without : Without base gone fs after
  done : ∀ name ∈ children, ¬ Replaced after staging keep name

theorem SweptAmong.skip (swept : SweptAmong staging keep base children gone fs after)
    (stays : ¬ Replaced fs staging keep name) :
    SweptAmong staging keep base (name :: children) gone fs after where
  once := swept.once
  replaced := swept.replaced
  without := swept.without
  done := List.forall_mem_cons.mpr
    ⟨fun still => stays (still.of_extends swept.without.extends), swept.done⟩

theorem SweptAmong.remove
    (swept : SweptAmong staging keep base children gone (fs.eraseTree (name :: base)) after)
    (replaced : Replaced fs staging keep name)
    (removed : ¬ Replaced (fs.eraseTree (name :: base)) staging keep name) :
    SweptAmong staging keep base (name :: children) (name :: gone) fs after where
  once := List.nodup_cons.mpr ⟨fun again => removed (swept.replaced name again), swept.once⟩
  replaced := List.forall_mem_cons.mpr ⟨replaced, fun other member =>
    (swept.replaced other member).of_extends (extends_eraseTree fs name base)⟩
  without := swept.without.cons
  done := List.forall_mem_cons.mpr
    ⟨fun still => removed (still.of_extends swept.without.extends), swept.done⟩

/-- The loop over the children, as long as the path of the directory leads nowhere else. -/
theorem pruneAmong_swept (clear : ∀ at', fs.reach false staging = .ok at' → at'.2 = base)
    (keep : String) (children : List Name) :
    ∃ gone after, pruneAmong staging keep children fs = .ok gone.length after
      ∧ SweptAmong staging keep base children gone fs after := by
  induction children generalizing fs with
  | nil => exact ⟨[], fs, rfl, by simp, by simp, .refl base fs, by simp⟩
  | cons name rest ih =>
      by_cases replaced : Replaced fs staging keep name
      · obtain ⟨l, found⟩ := replaced.directory
        obtain ⟨-, left, here, reached⟩ := reach_of_stat_child found
        obtain rfl : here = base := clear _ reached
        have clear' : ∀ at', (fs.eraseTree (name :: here)).reach false staging = .ok at' → at'.2 = here :=
          fun at' entered => clear at' (reach_extends (extends_eraseTree fs name here) entered)
        obtain ⟨gone, after, run, swept⟩ := ih clear'
        refine ⟨name :: gone, after, pruneAmong_removed replaced (removeAll_child reached found) run,
          swept.remove replaced fun again => ?_⟩
        obtain ⟨m, again⟩ := again.directory
        exact stat_child_erased reached _ again
      · obtain ⟨gone, after, run, swept⟩ := ih clear
        exact ⟨gone, after, pruneAmong_kept replaced run, swept.skip replaced⟩

/-- What pruning leaves of a staging directory at `base`.  Of the replaced versions, those stay
whose look-up looks at a place where another one is gone. -/
structure Swept (staging : Path) (keep : String) (base : Location) (gone : List Name)
    (fs after : FileSystem) : Prop where
  once : gone.Nodup
  replaced : ∀ name ∈ gone, Replaced fs staging keep name
  without : Without base gone fs after
  done : ∀ name, ¬ Replaced after staging keep name
  left : ∀ name, Replaced fs staging keep name → name ∉ gone →
    ∃ other ∈ gone, ∃ l, other :: base <:+ l ∧ LooksAt fs (staging.child name) l

/-- Where no version is in the way of another, exactly the replaced ones go. -/
theorem Swept.mem_iff (swept : Swept staging keep base gone fs after)
    (clear : ∀ name other l, Replaced fs staging keep name → Replaced fs staging keep other →
      other ≠ name → LooksAt fs (staging.child name) l → ¬ other :: base <:+ l) :
    name ∈ gone ↔ Replaced fs staging keep name := by
  refine ⟨swept.replaced name, fun replaced => ?_⟩
  by_contra stays
  obtain ⟨other, member, l, within, looks⟩ := swept.left name replaced stays
  refine clear name other l replaced (swept.replaced other member) ?_ looks within
  rintro rfl
  exact stays member

/-- A staging directory that is found is swept. -/
theorem prune_there (found : fs.stat staging = .ok (base, .directory)) (keep : String) :
    ∃ gone after, prune staging keep fs = .ok gone.length after
      ∧ Swept staging keep base gone fs after := by
  obtain ⟨-, left, reached⟩ := stat_eq_directory_iff.mp found
  have clear : ∀ at', fs.reach false staging = .ok at' → at'.2 = base := fun at' entered => by
    rw [Except.ok.inj (entered.symm.trans reached)]
  obtain ⟨gone, after, run, swept⟩ := pruneAmong_swept clear keep (fs.children base)
  have done : ∀ name, ¬ Replaced after staging keep name := fun name still => by
    obtain ⟨l, there⟩ := (still.of_extends swept.without.extends).directory
    exact swept.done name (mem_children.mpr (child_of_stat reached there).2) still
  exact ⟨gone, after, prune_of_names (names_ok_iff.mpr ⟨base, found, rfl⟩) run, swept.once,
    swept.replaced, swept.without, done,
    fun name replaced _ => replaced.looks swept.without (done name)⟩

namespace Crossing

def store : Name := ⟨[115], Eq.refl true⟩

/-- The name 0123456789abcdef. -/
def first : Name := ⟨[48, 49, 50, 51, 52, 53, 54, 55, 56, 57, 97, 98, 99, 100, 101, 102], Eq.refl true⟩

/-- The name fedcba9876543210. -/
def second : Name := ⟨[102, 101, 100, 99, 98, 97, 57, 56, 55, 54, 53, 52, 51, 50, 49, 48], Eq.refl true⟩

def start : FileSystem :=
  ⟨[([store], .directory), ([first, store], .directory), ([second, store], .directory)], []⟩

end Crossing
end Packaging
end StackSynth
