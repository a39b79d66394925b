import StackSynth.Proofs.Advance

/-!
# Writing — plans and the manifest

A document is written next to its place and then takes it.  A plan stands where nothing is to
last, so that writing plans loses nothing, and the manifest changes only when all plans are
written and its own document is complete.

* `App.writeDocument_ok`, `writeDocument_error` — one document;
* `App.writePlans_ok`, `writePlans_error` — all plans;
* `App.synthesize_ok`, `synthesize_error` — the plans and the manifest.
-/

namespace StackSynth

open FileSystem

/-- The stack has the directory in the output directory that is meant for it. -/
structure Stack.BelongsTo (stack : Stack) (outdir : Path) : Prop where
  directory : stack.directory = outdir.descend [App.stacksNode, stack.name.node]
  packager : stack.packager = .standard

namespace App

variable {outdir : Path} {root : Location} {fs after : FileSystem} {names : List Name}
  {name : Name} {document : Json}

/-! ## One document -/

theorem writeDocument_ok (standing : Standing outdir root fs) (few : names.length < versionDepth)
    (run : writeDocument ((outdir.descend names).child name) document fs = .ok () after) :
    Advance outdir root (· = name :: (names.reverse ++ root)) Nothing fs after
      ∧ Straight after outdir root (names ++ [name])
      ∧ after.get? (name :: (names.reverse ++ root)) = some (.file (documentFile document) 0o600)
      ∧ ∀ l object, l ≠ name :: (names.reverse ++ root) → fs.get? l = some object →
        after.get? l = some object := by
  have written := Action.mapError_ok_iff.mp run
  rw [writeAtomically_eq] at written
  obtain ⟨mid, left, l, bytes, mode, made, reached, spelled, fits, ⟨_, _, content⟩, placed⟩ :=
    placeAtomically_ok standing.sound written
  obtain ⟨rfl, rfl⟩ := Prod.mk.inj (Except.ok.inj content)
  have toMid := standing.made few.le made
  obtain ⟨⟨links, root'⟩, entered⟩ := reach_of_descend reached
  obtain rfl := toMid.standing.rooted.eq_of_reach entered
  obtain rfl := toMid.standing.plain.reach_descend entered reached
  have fit : Fit (names ++ [name]) := by
    have parts := toMid.standing.plain.fit_of_reach entered reached
    simp only [Fit, List.forall_mem_append, List.forall_mem_cons] at parts ⊢
    exact ⟨parts, fits, by simp⟩
  have toAfter : Advance outdir root' (· = name :: (names.reverse ++ root')) Nothing mid after :=
    toMid.standing.placed ⟨links, entered⟩ (List.cons_ne_nil name names.reverse) (by simpa using few)
      placed
  refine ⟨toMid.losing.trans toAfter, ⟨?_, fit, ?_⟩, ?_, ?_⟩
  · rw [Path.descend_append]
    exact spelled
  · exact toMid.standing.entered toAfter.outside ⟨links, entered⟩
  · rw [placed.objects, if_pos rfl]
  · intro l object other stands
    rw [placed.objects, if_neg other]
    exact made.grown.objects stands

theorem writeDocument_error (standing : Standing outdir root fs) (few : names.length ≤ versionDepth)
    {e : Failure}
    (run : writeDocument ((outdir.descend names).child name) document fs = .error e after) :
    Advance outdir root Nothing Nothing fs after := by
  obtain ⟨_, failed, -⟩ := Action.mapError_error_iff.mp run
  rw [writeAtomically_eq] at failed
  exact standing.made few (placeAtomically_error standing.sound failed)

/-! ## Plans -/

/-- The plan of the stack is where it is listed. -/
structure Planned (outdir : Path) (root : Location) (fs : FileSystem) (stack : Stack) : Prop where
  straight : Straight fs outdir root [stacksNode, stack.name.node, Plan.node]
  stands : fs.get? (Plan.node :: stack.name.node :: stacksNode :: root)
    = some (.file (documentFile (Plan.ofStack stack).document) 0o600)

theorem Planned.kept {gone new : Location → Prop} {stack : Stack} (planned : Planned outdir root fs stack)
    (standing : Standing outdir root fs) (advance : Advance outdir root gone new fs after)
    (same : ∀ object, fs.get? (Plan.node :: stack.name.node :: stacksNode :: root) = some object →
      after.get? (Plan.node :: stack.name.node :: stacksNode :: root) = some object) :
    Planned outdir root after stack where
  straight := ⟨planned.straight.spelled, planned.straight.fit,
    standing.entered advance.outside planned.straight.entered⟩
  stands := same _ planned.stands

theorem writePlan_ok {stack : Stack} (standing : Standing outdir root fs)
    (belongs : stack.BelongsTo outdir)
    (run : writeDocument stack.planPath (Plan.ofStack stack).document fs = .ok () after) :
    Advance outdir root Nothing Nothing fs after ∧ Planned outdir root after stack
      ∧ ∀ other : Stack, other.name ≠ stack.name → Planned outdir root fs other →
        Planned outdir root after other := by
  rw [stack.planPath_eq, belongs.directory] at run
  obtain ⟨advance, straight, stands, others⟩ := writeDocument_ok standing (by simp [versionDepth]) run
  refine ⟨advance.of_untracked ?_, ⟨straight, stands⟩, fun other name planned => ?_⟩
  · -- A plan stands three names below the output directory.
    rintro _ (isManifest | ⟨others, deep, isPlan⟩) rfl
    · have length := congrArg List.length isManifest
      simp only [List.length_cons, List.length_append, List.length_reverse] at length
      omega
    · have length := congrArg List.length isPlan
      simp only [List.length_cons, List.length_append, List.length_reverse, List.length_nil] at length
      simp only [versionDepth] at deep
      omega
  · refine planned.kept standing advance fun object => others _ object ?_
    intro same
    exact name (ConstructId.node_inj (List.cons.inj (List.cons.inj same).2).1)

theorem writePlan_error {stack : Stack} (standing : Standing outdir root fs)
    (belongs : stack.BelongsTo outdir) {e : Failure}
    (run : writeDocument stack.planPath document fs = .error e after) :
    Advance outdir root Nothing Nothing fs after := by
  rw [stack.planPath_eq, belongs.directory] at run
  exact writeDocument_error standing (by simp [versionDepth]) run

theorem writePlans_ok {others : List Stack} (standing : Standing outdir root fs)
    (belong : ∀ stack ∈ others, stack.BelongsTo outdir) (apart : (others.map Stack.name).Nodup)
    (run : writePlans others fs = .ok () after) :
    Advance outdir root Nothing Nothing fs after
      ∧ (∀ stack ∈ others, Planned outdir root after stack)
      ∧ ∀ stack : Stack, stack.name ∉ others.map Stack.name → Planned outdir root fs stack →
        Planned outdir root after stack := by
  induction others generalizing fs with
  | nil =>
      obtain ⟨-, rfl⟩ := Action.pure_ok_iff.mp run
      exact ⟨.refl standing, by simp, fun _ _ planned => planned⟩
  | cons stack rest ih =>
      simp only [List.forall_mem_cons] at belong
      obtain ⟨fresh, apart⟩ := List.nodup_cons.mp (List.map_cons ▸ apart)
      obtain ⟨_, mid, first, run⟩ := Action.bind_ok_iff.mp run
      obtain ⟨toMid, planned, kept⟩ := writePlan_ok standing belong.1 first
      obtain ⟨toAfter, others, still⟩ := ih toMid.standing belong.2 apart run
      refine ⟨toMid.trans toAfter, ?_, ?_⟩
      · simp only [List.forall_mem_cons]
        exact ⟨still stack fresh planned, others⟩
      · intro other away before
        simp only [List.map_cons, List.mem_cons, not_or] at away
        exact still other away.2 (kept other away.1 before)

theorem writePlans_error {others : List Stack} (standing : Standing outdir root fs)
    (belong : ∀ stack ∈ others, stack.BelongsTo outdir) {e : Failure}
    (run : writePlans others fs = .error e after) : Advance outdir root Nothing Nothing fs after := by
  induction others generalizing fs with
  | nil => exact absurd run Action.pure_error_iff.mp
  | cons stack rest ih =>
      simp only [List.forall_mem_cons] at belong
      rcases Action.bind_error_iff.mp run with failed | ⟨_, mid, first, failed⟩
      · exact writePlan_error standing belong.1 failed
      · have toMid := (writePlan_ok standing belong.1 first).1
        exact toMid.trans (ih toMid.standing belong.2 failed)

/-! ## The manifest -/

theorem synthesize_ok {app : App} (standing : Standing app.outdir root fs)
    (belong : ∀ stack ∈ app.registered, stack.BelongsTo app.outdir)
    (apart : (app.registered.map Stack.name).Nodup) {report : Report}
    (run : app.synthesize fs = .ok report after) :
    Advance app.outdir root (· = Manifest.node :: root) Nothing fs after
      ∧ Straight after app.outdir root [Manifest.node]
      ∧ after.get? (Manifest.node :: root)
        = some (.file (documentFile (Manifest.ofApp app).json) 0o600)
      ∧ ∀ stack ∈ app.registered, Planned app.outdir root after stack := by
  obtain ⟨_, mid, plans, rest⟩ := Action.bind_ok_iff.mp run
  obtain ⟨_, final, written, done⟩ := Action.bind_ok_iff.mp rest
  obtain ⟨-, rfl⟩ := Action.pure_ok_iff.mp done
  obtain ⟨toMid, planned, -⟩ := writePlans_ok standing belong apart plans
  rw [app.manifestPath_eq, ← Path.descend_nil app.outdir] at written
  obtain ⟨toFinal, straight, stands, others⟩ := writeDocument_ok toMid.standing (by decide) written
  refine ⟨toMid.losing.trans toFinal, straight, stands, fun stack member => ?_⟩
  refine (planned stack member).kept toMid.standing toFinal fun object => others _ object ?_
  intro same
  have length := congrArg List.length same
  simp only [List.length_cons, List.reverse_nil, List.nil_append] at length
  omega

/-- Whatever fails leaves the manifest as it is. -/
theorem synthesize_error {app : App} (standing : Standing app.outdir root fs)
    (belong : ∀ stack ∈ app.registered, stack.BelongsTo app.outdir)
    (apart : (app.registered.map Stack.name).Nodup) {e : Failure}
    (run : app.synthesize fs = .error e after) : Advance app.outdir root Nothing Nothing fs after := by
  rcases Action.bind_error_iff.mp run with failed | ⟨_, mid, plans, rest⟩
  · exact writePlans_error standing belong failed
  · obtain ⟨toMid, -⟩ := writePlans_ok standing belong apart plans
    rcases Action.bind_error_iff.mp rest with failed | ⟨_, final, -, done⟩
    · rw [app.manifestPath_eq, ← Path.descend_nil app.outdir] at failed
      exact toMid.trans (writeDocument_error toMid.standing (by decide) failed)
    · exact absurd done Action.pure_error_iff.mp

/-- The documents of an app with one stack. -/
theorem synthesize_one {app : App} {stack : Stack} {mid : FileSystem} (only : app.registered = [stack])
    (plan : writeAtomically stack.planPath (documentFile (Plan.ofStack stack).document) fs
      = .ok () mid)
    (manifest : writeAtomically app.manifestPath (documentFile (Manifest.ofApp app).json) mid
      = .ok () after) :
    app.synthesize fs
      = .ok ⟨app.outdir, app.manifestPath, app.registered.map Stack.report⟩ after := by
  refine Action.bind_ok_iff.mpr ⟨(), mid, ?_, ?_⟩
  · rw [only]
    exact Action.bind_ok_iff.mpr ⟨(), mid, Action.mapError_ok_iff.mpr plan, rfl⟩
  · exact Action.bind_ok_iff.mpr ⟨(), after, Action.mapError_ok_iff.mpr manifest, rfl⟩

end App
end StackSynth
