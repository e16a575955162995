import EventKafka.File.Copies
import EventKafka.File.Cutover

/-! # A copy is made at once

What the tool does takes many calls, among those of other processes. `Visible` is the same
system with a copy as one step: the source is read, transformed and put under the name of
the output, if nothing is there. Every run of the system is, on the databases, a run of
`Visible` in which each publication is that step.

Three facts carry this. The lock: while a run holds its source no session has it open, so
the snapshot is what the source holds until the run lets go (`System.Inv`). The stage file
has no other name until it is linked, so nobody sees it half written. And the link never
replaces a file.
-/

namespace EventKafka

open Sql

/-! ## The system with atomic copies -/

/-- A step that shows. -/
inductive Visible where
  | openDb (p : String) (fault : FilePlan)
  | commit (p : String) (tx : DbFile → DbFile)
  | copy (a : CopyArgs)

def Visible.step (dbs : String → Option DbFile) : Visible → String → Option DbFile
  | .openDb p fault => Function.update dbs p (some (afterOpen fault (foundFile (dbs p))))
  | .commit p tx => Function.update dbs p ((dbs p).map tx)
  | .copy a =>
    match dbs a.source, dbs a.output with
    | some x, none =>
      match a.transform.run x with
      | .ok _ y => Function.update dbs a.output (some y)
      | .error _ _ => dbs
    | _, _ => dbs

/-- What an action shows. -/
def System.shows (s : System) : Action → List Visible
  | .tool i fault =>
    match s.runs i with
    | none => []
    | some r => if r.phase = .publish ∧ fault = none then [.copy r.args] else []
  | .openDb w p fault => if s.opens w p fault then [.openDb p fault] else []
  | .commit w tx =>
    match s.sessions w with
    | none => []
    | some p => [.commit p tx]
  | .bypass p tx => [.commit p tx]
  | _ => []

/-! ## The invariant -/

/-- The stage file is of no more use. -/
def Phase.over : Phase → Bool
  | .sync => true
  | .unlink _ => true
  | .unlock _ => true
  | .exited _ => true
  | .killed => true
  | _ => false

def System.over (s : System) (i : ℕ) : Prop := ∃ r, s.runs i = some r ∧ r.phase.over = true

/-- The two names of the output of a run. -/
def Twins (i : ℕ) (p q : Path) : Prop :=
  ∃ n, p = .stage i ∧ q = .named n ∨ p = .named n ∧ q = .stage i

/-- What holds of a run: the lock, and what its stage file is a copy of. -/
structure CopyRun.Ok (r : CopyRun) (s : System) (i : ℕ) : Prop where
  held : r.phase.holds = true → s.locks r.args.source = some (.tool i)
  copied : r.phase = .transform → ∃ x, s.databases r.args.source = some x ∧
    s.disk.content (.stage i) = some x
  built : r.phase = .publish → ∃ x y, s.databases r.args.source = some x ∧
    r.args.transform.run x = .ok () y ∧ s.disk.content (.stage i) = some y

/-- The invariant of the system. -/
structure System.Inv (s : System) : Prop where
  /-- Only an output shares its file, with a stage file that is of no more use. -/
  shared : ∀ p q, p ≠ q → s.disk.Shares p q → ∃ i, Twins i p q ∧ s.over i
  opened : ∀ w p, s.sessions w = some p → s.locks p = some (.module w)
  runs : ∀ i r, s.runs i = some r → r.Ok s i

theorem System.Fresh.inv {s : System} (h : s.Fresh) : s.Inv where
  shared := by
    rintro (p | i) (q | j) hne ⟨k, hp, hq⟩
    · exact absurd ⟨k, hp, hq⟩ (h.apart p q fun heq => hne (congrArg _ heq))
    · rw [h.stages] at hq
      cases hq
    · rw [h.stages] at hp
      cases hp
    · rw [h.stages] at hp
      cases hp
  opened := by
    intro w p hw
    rw [h.sessions] at hw
    cases hw
  runs := by
    intro i r hr
    rw [h.runs] at hr
    cases hr

section Sharing

variable {s : System}

theorem System.Inv.apart_named (h : s.Inv) {p q : String} (hne : p ≠ q) :
    ¬ s.disk.Shares (.named p) (.named q) := by
  intro hs
  rcases h.shared _ _ (fun heq => hne (Path.named.inj heq)) hs with ⟨i, ⟨n, htwins⟩, -⟩
  rcases htwins with ⟨hp, -⟩ | ⟨-, hq⟩
  · cases hp
  · cases hq

/-- A stage file that is in use has one name. -/
theorem System.Inv.apart_stage (h : s.Inv) {i : ℕ} (hi : ¬ s.over i) {p : Path}
    (hne : p ≠ .stage i) : ¬ s.disk.Shares p (.stage i) := by
  intro hs
  rcases h.shared _ _ hne hs with ⟨j, ⟨n, htwins⟩, hj⟩
  rcases htwins with ⟨-, hstage⟩ | ⟨-, hstage⟩
  · cases hstage
  · rw [Path.stage.injEq] at hstage
    exact hi (hstage ▸ hj)

end Sharing

/-! ## What other steps leave alone -/

/-- The step leaves run `j` its lock, its source and its stage file. -/
structure Kept (s s' : System) (j : ℕ) : Prop where
  lock : ∀ p, s.locks p = some (.tool j) → s'.locks p = some (.tool j)
  source : ∀ p x, s.locks p = some (.tool j) → s.databases p = some x → s'.databases p = some x
  stage : ¬ s.over j → s'.disk.content (.stage j) = s.disk.content (.stage j)

theorem System.not_over {s : System} {i : ℕ} {r : CopyRun} (hr : s.runs i = some r)
    (h : r.phase.over = false) : ¬ s.over i := by
  rintro ⟨q, hq, hover⟩
  rw [hr, Option.some.injEq] at hq
  rw [← hq, h] at hover
  cases hover

theorem CopyRun.Ok.kept {s s' : System} {j : ℕ} {r : CopyRun} (h : r.Ok s j)
    (hr : s.runs j = some r) (hkept : Kept s s' j) : r.Ok s' j where
  held hphase := hkept.lock _ (h.held hphase)
  copied := by
    intro hphase
    rcases h.copied hphase with ⟨x, hsource, hstage⟩
    have hlock := h.held (by rw [hphase]; rfl)
    have hover := System.not_over hr (by rw [hphase]; rfl)
    exact ⟨x, hkept.source _ _ hlock hsource, (hkept.stage hover).trans hstage⟩
  built := by
    intro hphase
    rcases h.built hphase with ⟨x, y, hsource, hrun, hstage⟩
    have hlock := h.held (by rw [hphase]; rfl)
    have hover := System.not_over hr (by rw [hphase]; rfl)
    exact ⟨x, y, hkept.source _ _ hlock hsource, hrun, (hkept.stage hover).trans hstage⟩

/-! ## One step of a run -/

section Tick

variable {s s' : System} {i : ℕ} {r : CopyRun} {phase : Phase}

theorem System.over_enter {j : ℕ} (hr : s.runs i = some r) (hmono : r.phase.over → phase.over)
    (h : s.over j) : (s.enter i r phase).over j := by
  rcases h with ⟨q, hq, hover⟩
  by_cases hji : j = i
  · rw [hji, hr, Option.some.injEq] at hq
    refine ⟨{ r with phase := phase }, ?_, hmono (hq ▸ hover)⟩
    simp [System.enter, hji]
  · refine ⟨q, ?_, hover⟩
    simp [System.enter, Function.update_of_ne hji, hq]

/-- Run `i` goes to `phase` with the disk and the locks of `s'`: the rest of the invariant
follows from what the other runs and the sessions keep. -/
theorem System.Inv.enter (h : s.Inv) (hr : s.runs i = some r) (hruns : s'.runs = s.runs)
    (hsessions : s'.sessions = s.sessions) (hmono : r.phase.over → phase.over)
    (hshared : ∀ p q, p ≠ q → s'.disk.Shares p q →
      s.disk.Shares p q ∨ Twins i p q ∧ phase.over = true)
    (hmodule : ∀ p w, s.locks p = some (.module w) → s'.locks p = some (.module w))
    (hkept : ∀ j, j ≠ i → Kept s s' j) (hself : CopyRun.Ok { r with phase := phase } s' i) :
    (s'.enter i r phase).Inv where
  shared := by
    intro p q hne hs
    have hr' : s'.runs i = some r := hruns ▸ hr
    rcases hshared p q hne hs with hold | ⟨htwins, hover⟩
    · rcases h.shared p q hne hold with ⟨j, htwins, q', hq', hover⟩
      exact ⟨j, htwins, System.over_enter hr' hmono ⟨q', hruns ▸ hq', hover⟩⟩
    · refine ⟨i, htwins, { r with phase := phase }, ?_, hover⟩
      simp [System.enter]
  opened := by
    intro w p hw
    exact hmodule p w (h.opened w p (hsessions ▸ hw))
  runs := by
    intro j q hq
    by_cases hji : j = i
    · subst hji
      simp only [System.enter, Function.update_self, Option.some.injEq] at hq
      rw [← hq]
      exact ⟨hself.held, hself.copied, hself.built⟩
    · have hq' : s.runs j = some q := by
        simp only [System.enter, Function.update_of_ne hji, hruns] at hq
        exact hq
      have hok := (h.runs j q hq').kept hq' (hkept j hji)
      exact ⟨hok.held, hok.copied, hok.built⟩

theorem Kept.refl (s : System) (j : ℕ) : Kept s s j := ⟨fun _ h => h, fun _ _ _ h => h, fun _ => rfl⟩

/-- Run `i` goes on without touching anything. -/
theorem System.Inv.move (h : s.Inv) (hr : s.runs i = some r) (hmono : r.phase.over → phase.over)
    (hself : CopyRun.Ok { r with phase := phase } s i) : (s.enter i r phase).Inv :=
  h.enter hr rfl rfl hmono (fun _ _ _ hs => Or.inl hs) (fun _ _ hp => hp) (fun j _ => .refl s j)
    hself

/-- In a phase past the publication, or before the lock, nothing is asked but the lock. -/
theorem CopyRun.Ok.of_held (h : phase.holds = true → s.locks r.args.source = some (.tool i))
    (hcopied : phase ≠ .transform) (hbuilt : phase ≠ .publish) :
    CopyRun.Ok { r with phase := phase } s i :=
  ⟨h, fun heq => absurd heq hcopied, fun heq => absurd heq hbuilt⟩

/-- The databases do not see a stage file that is in use. -/
theorem databases_stage (h : s.Inv) (hi : ¬ s.over i) (x : DbFile) :
    (s.onDisk (s.disk.put (.stage i) x)).databases = s.databases := by
  funext p
  refine Disk.content_put_of_not_shares (by simp) fun hs => ?_
  exact h.apart_stage hi (p := .named p) (by simp) hs.symm

/-- Writing the stage file of the run itself. -/
theorem System.Inv.write (h : s.Inv) (hr : s.runs i = some r) (hi : r.phase.over = false)
    (x : DbFile)
    (hself : CopyRun.Ok { r with phase := phase } (s.onDisk (s.disk.put (.stage i) x)) i) :
    ((s.onDisk (s.disk.put (.stage i) x)).enter i r phase).Inv := by
  have hover := System.not_over hr hi
  refine h.enter hr rfl rfl (by simp [hi]) (fun p q hne hs => Or.inl (hs.of_put hne))
    (fun _ _ hp => hp) (fun j hji => ⟨fun _ hp => hp, ?_, fun _ => ?_⟩) hself
  · intro p y _ hp
    rw [databases_stage h hover]
    exact hp
  · refine Disk.content_put_of_not_shares (by simpa using hji) fun hs => ?_
    exact h.apart_stage hover (p := .stage j) (by simpa using hji) hs.symm

/-- A run lets go of its lock. -/
theorem System.Inv.letGo (h : s.Inv) (hr : s.runs i = some r) (hholds : r.phase.holds = true)
    (hmono : r.phase.over → phase.over) (hphase : phase.holds = false) :
    ((s.release r.args.source).enter i r phase).Inv := by
  have hlock := (h.runs i r hr).held hholds
  have hother : ∀ p o, s.locks p = some o → o ≠ .tool i →
      (s.release r.args.source).locks p = some o := by
    intro p o hp ho
    have hne : p ≠ r.args.source := by
      rintro rfl
      rw [hlock, Option.some.injEq] at hp
      exact ho hp.symm
    simp only [System.release, Function.update_of_ne hne, hp]
  refine h.enter hr rfl rfl hmono (fun _ _ _ hs => Or.inl hs) (fun p w hp => hother p _ hp (by simp))
    (fun j hji => ⟨fun p hp => hother p _ hp (by simpa using hji), fun _ _ _ hp => hp,
      fun _ => rfl⟩) (.of_held (by simp [hphase]) ?_ ?_)
  · rintro rfl
    cases hphase
  · rintro rfl
    cases hphase

theorem or_eq_none {a b : Option String} : (a <|> b) = none ↔ a = none ∧ b = none := by
  cases a <;> simp

theorem demand_eq_none {ok : Bool} {msg : String} : demand ok msg = none ↔ ok = true := by
  cases ok <;> simp [demand]

/-- The first call after the checks. -/
theorem System.Inv.tick_lock (h : s.Inv) (hr : s.runs i = some r) (hp : r.phase = .lock)
    (hfree : s.locks r.args.source = none) :
    ((s.acquire r.args.source (.tool i)).enter i r .stage).Inv := by
  have hother : ∀ p o, s.locks p = some o → (s.acquire r.args.source (.tool i)).locks p = some o := by
    intro p o hlock
    have hne : p ≠ r.args.source := by
      rintro rfl
      rw [hfree] at hlock
      cases hlock
    simp only [System.acquire, Function.update_of_ne hne, hlock]
  refine h.enter hr rfl rfl (by simp [hp, Phase.over]) (fun _ _ _ hs => Or.inl hs)
    (fun p w hlock => hother p _ hlock)
    (fun j _ => ⟨fun p hlock => hother p _ hlock, fun _ _ _ hx => hx, fun _ => rfl⟩)
    (.of_held (fun _ => ?_) (by simp) (by simp))
  simp [System.acquire]

theorem System.Inv.tick_stage (h : s.Inv) (hr : s.runs i = some r) (hp : r.phase = .stage) :
    ((s.onDisk (s.disk.create (.stage i) .new)).enter i r .copy).Inv := by
  have hlock := (h.runs i r hr).held (by rw [hp]; rfl)
  refine h.enter hr rfl rfl (by simp [hp, Phase.over])
    (fun p q hne hs => Or.inl (hs.of_create hne)) (fun _ _ hx => hx)
    (fun j hji => ⟨fun _ hx => hx, fun p x _ hx => ?_, fun _ => ?_⟩)
    (.of_held (fun _ => hlock) (by simp) (by simp))
  · exact (Disk.content_create_of_ne (by simp)).trans hx
  · exact Disk.content_create_of_ne (by simpa using hji)

theorem System.Inv.tick_copy (h : s.Inv) (hr : s.runs i = some r) (hp : r.phase = .copy)
    {x : DbFile} (hx : s.databases r.args.source = some x) :
    ((s.onDisk (s.disk.put (.stage i) x)).enter i r .transform).Inv := by
  have hlock := (h.runs i r hr).held (by rw [hp]; rfl)
  have hi : r.phase.over = false := by rw [hp]; rfl
  refine h.write hr hi x ⟨fun _ => hlock, fun _ => ⟨x, ?_, Disk.content_put_self⟩, by simp⟩
  rw [databases_stage h (System.not_over hr hi)]
  exact hx

theorem System.Inv.tick_transform (h : s.Inv) (hr : s.runs i = some r)
    (hp : r.phase = .transform) {x y : DbFile} (hx : s.disk.content (.stage i) = some x)
    (hrun : r.args.transform.run x = .ok () y) :
    ((s.onDisk (s.disk.put (.stage i) y)).enter i r .publish).Inv := by
  have hok := h.runs i r hr
  have hlock := hok.held (by rw [hp]; rfl)
  have hi : r.phase.over = false := by rw [hp]; rfl
  rcases hok.copied hp with ⟨x', hsource, hstage⟩
  have heq : x' = x := Option.some.inj (hstage.symm.trans hx)
  subst heq
  refine h.write hr hi y ⟨fun _ => hlock, by simp, fun _ => ⟨x', y, ?_, hrun,
    Disk.content_put_self⟩⟩
  rw [databases_stage h (System.not_over hr hi)]
  exact hsource

/-- The link gives the stage file the name of the output. -/
theorem System.Inv.tick_publish (h : s.Inv) (hr : s.runs i = some r) (hp : r.phase = .publish)
    (hfree : s.databases r.args.output = none) :
    ((s.onDisk (s.disk.link (.stage i) (.named r.args.output))).enter i r .sync).Inv := by
  have hlock := (h.runs i r hr).held (by rw [hp]; rfl)
  have hover := System.not_over hr (by rw [hp]; rfl)
  refine h.enter hr rfl rfl (by simp [hp, Phase.over]) (fun p q hne hs => ?_) (fun _ _ hx => hx)
    (fun j hji => ⟨fun _ hx => hx, fun p x _ hx => ?_, fun _ => ?_⟩)
    (.of_held (fun _ => hlock) (by simp) (by simp))
  · rcases hs.of_link hne with hold | ⟨rfl, hold⟩ | ⟨rfl, hold⟩
    · exact Or.inl hold
    · by_cases hq : q = .stage i
      · exact Or.inr ⟨⟨r.args.output, Or.inr ⟨rfl, hq⟩⟩, rfl⟩
      · exact absurd hold.symm (h.apart_stage hover hq)
    · by_cases hq : p = .stage i
      · exact Or.inr ⟨⟨r.args.output, Or.inl ⟨hq, rfl⟩⟩, rfl⟩
      · exact absurd hold.symm (h.apart_stage hover hq)
  · have hne : p ≠ r.args.output := by
      rintro rfl
      rw [hfree] at hx
      cases hx
    exact (Disk.content_link_of_ne (by simpa using hne)).trans hx
  · exact Disk.content_link_of_ne (by simp)

theorem System.Inv.tick_unlink (h : s.Inv) (hr : s.runs i = some r) {err : Option String}
    (hp : r.phase = .unlink err) :
    ((s.onDisk (s.disk.remove (.stage i))).enter i r (.unlock err)).Inv := by
  have hlock := (h.runs i r hr).held (by rw [hp]; rfl)
  refine h.enter hr rfl rfl (fun _ => rfl) (fun p q _ hs => Or.inl hs.of_remove)
    (fun _ _ hx => hx) (fun j hji => ⟨fun _ hx => hx, fun p x _ hx => ?_, fun _ => ?_⟩)
    (.of_held (fun _ => hlock) (by simp) (by simp))
  · exact (Disk.content_remove_of_ne (by simp)).trans hx
  · exact Disk.content_remove_of_ne (by simpa using hji)

/-- What run `i` shows of its next call. -/
def CopyRun.shows (r : CopyRun) (fault : Option String) : List Visible :=
  if r.phase = .publish ∧ fault = none then [.copy r.args] else []

/-- Every call of a run keeps the invariant and shows nothing, but for the publication, which
shows the whole copy. -/
theorem System.Inv.tick (h : s.Inv) (hr : s.runs i = some r) (fault : Option String) :
    (s.tick i r fault).Inv ∧
      (s.tick i r fault).databases = Machine.run Visible.step s.databases (r.shows fault) := by
  have hok := h.runs i r hr
  have hmove : ∀ phase : Phase, (r.phase.over → phase.over) →
      (phase.holds = true → r.phase.holds = true) → phase ≠ .transform → phase ≠ .publish →
      (s.enter i r phase).Inv := fun phase hmono hholds hcopied hbuilt =>
    h.move hr hmono (.of_held (fun hphase => hok.held (hholds hphase)) hcopied hbuilt)
  unfold CopyRun.shows System.tick
  cases hp : r.phase with
  | checks =>
    rw [hp] at hmove
    dsimp only
    cases r.args.refusal s.isFile with
    | none => exact ⟨hmove _ (by simp [Phase.over]) (by simp [Phase.holds]) (by simp) (by simp), rfl⟩
    | some msg => exact ⟨hmove _ (fun _ => rfl) (by simp [Phase.holds]) (by simp) (by simp), rfl⟩
  | lock =>
    rw [hp] at hmove
    dsimp only
    cases hfail : fault <|> demand (s.locks r.args.source).isNone
        "[Errno 11] Resource temporarily unavailable" with
    | some msg => exact ⟨hmove _ (fun _ => rfl) (by simp [Phase.holds]) (by simp) (by simp), rfl⟩
    | none =>
      refine ⟨h.tick_lock hr hp ?_, rfl⟩
      exact Option.isNone_iff_eq_none.mp (demand_eq_none.mp (or_eq_none.mp hfail).2)
  | stage =>
    rw [hp] at hmove
    dsimp only
    cases fault with
    | some msg => exact ⟨h.letGo hr (by rw [hp]; rfl) (fun _ => rfl) rfl, rfl⟩
    | none =>
      refine ⟨h.tick_stage hr hp, ?_⟩
      funext p
      exact Disk.content_create_of_ne (by simp)
  | copy =>
    rw [hp] at hmove
    dsimp only
    have hover := System.not_over hr (by rw [hp]; rfl)
    cases fault with
    | some msg => exact ⟨hmove _ (fun _ => rfl) (fun _ => rfl) (by simp) (by simp), rfl⟩
    | none =>
      cases hx : s.databases r.args.source with
      | none => exact ⟨hmove _ (fun _ => rfl) (fun _ => rfl) (by simp) (by simp), rfl⟩
      | some x => exact ⟨h.tick_copy hr hp hx, databases_stage h hover x⟩
  | transform =>
    rw [hp] at hmove
    dsimp only
    have hi : r.phase.over = false := by rw [hp]; rfl
    have hover := System.not_over hr hi
    cases fault with
    | some msg => exact ⟨hmove _ (fun _ => rfl) (fun _ => rfl) (by simp) (by simp), rfl⟩
    | none =>
      cases hx : s.disk.content (.stage i) with
      | none => exact ⟨hmove _ (fun _ => rfl) (fun _ => rfl) (by simp) (by simp), rfl⟩
      | some x =>
        dsimp only
        cases hrun : r.args.transform.run x with
        | ok u y => exact ⟨h.tick_transform hr hp hx hrun, databases_stage h hover y⟩
        | error msg y =>
          refine ⟨h.write hr hi y (.of_held (fun _ => ?_) (by simp) (by simp)),
            databases_stage h hover y⟩
          exact hok.held (by rw [hp]; rfl)
  | publish =>
    rw [hp] at hmove
    dsimp only
    rcases hok.built hp with ⟨x, y, hsource, hrun, hstage⟩
    cases fault with
    | some msg =>
      exact ⟨hmove _ (fun _ => rfl) (fun _ => rfl) (by simp) (by simp), by simp; rfl⟩
    | none =>
      cases hfree : s.databases r.args.output with
      | some z =>
        have hfile : s.isFile r.args.output = true := by simp [System.isFile, hfree]
        have hcopy : Visible.step s.databases (.copy r.args) = s.databases := by
          simp [Visible.step, hsource, hfree]
        simp only [hfile, demand, Bool.not_true, Bool.false_eq_true, if_false, and_self, if_true,
          Machine.run_cons, Machine.run_nil, hcopy]
        exact ⟨hmove _ (fun _ => rfl) (fun _ => rfl) (by simp) (by simp), rfl⟩
      | none =>
        have hfile : s.isFile r.args.output = false := by simp [System.isFile, hfree]
        have hcopy : Visible.step s.databases (.copy r.args) =
            Function.update s.databases r.args.output (some y) := by
          simp only [Visible.step, hsource, hfree, hrun]
        simp only [hfile, demand, Bool.not_false, if_true, and_self, Machine.run_cons,
          Machine.run_nil, hcopy]
        refine ⟨h.tick_publish hr hp hfree, ?_⟩
        funext p
        by_cases hpo : p = r.args.output
        · rw [hpo, Function.update_self]
          exact Disk.content_link_self.trans hstage
        · rw [Function.update_of_ne hpo]
          exact Disk.content_link_of_ne (by simpa using hpo)
  | sync =>
    rw [hp] at hmove
    exact ⟨hmove _ (fun _ => rfl) (fun _ => rfl) (by simp) (by simp), rfl⟩
  | unlink err =>
    rw [hp] at hmove
    dsimp only
    cases fault with
    | some msg => exact ⟨hmove _ (fun _ => rfl) (fun _ => rfl) (by simp) (by simp), rfl⟩
    | none =>
      refine ⟨h.tick_unlink hr hp, ?_⟩
      funext p
      exact Disk.content_remove_of_ne (by simp)
  | unlock err => exact ⟨h.letGo hr (by rw [hp]; rfl) (fun _ => rfl) rfl, rfl⟩
  | exited err => exact ⟨h, rfl⟩
  | killed => exact ⟨h, rfl⟩

end Tick

/-! ## One step of the others -/

section Others

variable {s s' : System}

/-- A step of a process that is no run of the tool. -/
theorem System.Inv.session (h : s.Inv) (hruns : s'.runs = s.runs)
    (hshared : ∀ p q, p ≠ q → s'.disk.Shares p q → s.disk.Shares p q)
    (hopened : ∀ w p, s'.sessions w = some p → s'.locks p = some (.module w))
    (hkept : ∀ j, Kept s s' j) : s'.Inv where
  shared := by
    intro p q hne hs
    rcases h.shared p q hne (hshared p q hne hs) with ⟨i, htwins, r, hr, hover⟩
    exact ⟨i, htwins, r, hruns ▸ hr, hover⟩
  opened := hopened
  runs := by
    intro i r hr
    rw [hruns] at hr
    exact (h.runs i r hr).kept hr (hkept i)

/-- A write under the name `p` that is not locked by the tool. -/
theorem kept_named (h : s.Inv) {p : String} {d : Disk Path DbFile}
    (hfree : ∀ j, s.locks p ≠ some (.tool j))
    (hother : ∀ q, q ≠ .named p → ¬ s.disk.Shares (.named p) q →
      d.content q = s.disk.content q) (j : ℕ) : Kept s (s.onDisk d) j where
  lock _ hq := hq
  source := by
    intro q x hlock hx
    have hne : q ≠ p := by
      rintro rfl
      exact hfree j hlock
    exact (hother _ (by simpa using hne) (h.apart_named hne.symm)).trans hx
  stage hover := hother _ (by simp) (h.apart_stage hover (by simp))

theorem databases_named (h : s.Inv) {p : String} {d : Disk Path DbFile}
    (hother : ∀ q, q ≠ .named p → ¬ s.disk.Shares (.named p) q →
      d.content q = s.disk.content q) :
    (s.onDisk d).databases = Function.update s.databases p (d.content (.named p)) := by
  funext q
  by_cases hq : q = p
  · rw [hq, Function.update_self]
    rfl
  · rw [Function.update_of_ne hq]
    exact hother _ (by simpa using hq) (h.apart_named (Ne.symm hq))

/-- A transaction on a database no run of the tool has locked. -/
theorem System.Inv.transact (h : s.Inv) {p : String} (hfree : ∀ j, s.locks p ≠ some (.tool j))
    (tx : DbFile → DbFile) :
    (s.onDisk (s.disk.modify (.named p) tx)).Inv ∧
      (s.onDisk (s.disk.modify (.named p) tx)).databases =
        Visible.step s.databases (.commit p tx) := by
  have hother : ∀ q, q ≠ Path.named p → ¬ s.disk.Shares (.named p) q →
      (s.disk.modify (.named p) tx).content q = s.disk.content q := fun q _ hq =>
    Disk.content_modify_of_not_shares hq
  refine ⟨h.session rfl (fun p q _ hs => Disk.shares_modify.mp hs) h.opened
    (kept_named h hfree hother), ?_⟩
  rw [databases_named h hother, Disk.content_modify_self]
  rfl

theorem System.Inv.kill (h : s.Inv) {i : ℕ} {r : CopyRun} (hr : s.runs i = some r)
    (left : DbFile) :
    (s.kill i r left).Inv ∧ (s.kill i r left).databases = s.databases := by
  by_cases hwriting : r.phase.writing = true
  · have hholds : r.phase.holds = true := by
      cases hp : r.phase <;> simp [hp, Phase.writing] at hwriting <;> rfl
    have hi : r.phase.over = false := by
      cases hp : r.phase <;> simp [hp, Phase.writing] at hwriting <;> rfl
    have hlock := (h.runs i r hr).held hholds
    -- as if the run had raised first, and then let go
    have hraised : ((s.onDisk (s.disk.put (.stage i) left)).enter i r (.unlink none)).Inv :=
      h.write hr hi left (.of_held (fun _ => hlock) (by simp) (by simp))
    have hkilled : ((((s.onDisk (s.disk.put (.stage i) left)).enter i r
        (.unlink none)).release r.args.source).enter i { r with phase := .unlink none }
          .killed).Inv :=
      hraised.letGo (r := { r with phase := .unlink none }) (by simp [System.enter]) rfl
        (fun _ => rfl) rfl
    have hsame : s.kill i r left = (((s.onDisk (s.disk.put (.stage i) left)).enter i r
        (.unlink none)).release r.args.source).enter i { r with phase := .unlink none } .killed := by
      simp [System.kill, hwriting, hholds, System.enter, System.release, System.onDisk]
    rw [hsame]
    exact ⟨hkilled, databases_stage h (System.not_over hr hi) left⟩
  · by_cases hholds : r.phase.holds = true
    · have hsame : s.kill i r left = (s.release r.args.source).enter i r .killed := by
        simp [System.kill, hwriting, hholds]
      rw [hsame]
      exact ⟨h.letGo hr hholds (fun _ => rfl) rfl, rfl⟩
    · have hsame : s.kill i r left = s.enter i r .killed := by
        simp [System.kill, hwriting, hholds]
      rw [hsame]
      exact ⟨h.move hr (fun _ => rfl) (.of_held (by simp [Phase.holds]) (by simp) (by simp)), rfl⟩

theorem System.Inv.start (h : s.Inv) {i : ℕ} (hnone : s.runs i = none) (args : CopyArgs) :
    ({ s with runs := Function.update s.runs i (some ⟨args, .checks⟩) } : System).Inv where
  shared := by
    intro p q hne hs
    rcases h.shared p q hne hs with ⟨j, htwins, r, hr, hover⟩
    have hji : j ≠ i := by
      rintro rfl
      rw [hnone] at hr
      cases hr
    exact ⟨j, htwins, r, by simp [Function.update_of_ne hji, hr], hover⟩
  opened := h.opened
  runs := by
    intro j r hr
    by_cases hji : j = i
    · subst hji
      simp only [Function.update_self, Option.some.injEq] at hr
      subst hr
      exact .of_held (r := ⟨args, .checks⟩) (by simp [Phase.holds]) (by simp) (by simp)
    · simp only [Function.update_of_ne hji] at hr
      have hok := h.runs j r hr
      exact ⟨hok.held, hok.copied, hok.built⟩

/-- A session takes the lock of a database no one has locked, and opens it. -/
theorem System.Inv.openDb (h : s.Inv) {w : ℕ} {p : String} {fault : FilePlan}
    (hopens : s.opens w p fault = true) :
    (s.step (.openDb w p fault)).Inv ∧ (s.step (.openDb w p fault)).databases =
      Visible.step s.databases (.openDb p fault) := by
  have hfree : s.locks p = none := by
    simp only [System.opens, Bool.and_eq_true, Option.isNone_iff_eq_none] at hopens
    exact hopens.1.2
  have hne : ∀ q o, s.locks q = some o → q ≠ p := by
    rintro q o hq rfl
    rw [hfree] at hq
    cases hq
  simp only [System.step, hopens, if_true]
  generalize hd : s.disk.put (.named p) (afterOpen fault (foundFile (s.databases p))) = d
  have hshared : ∀ q q', q ≠ q' → d.Shares q q' → s.disk.Shares q q' := fun q q' hqq' hs =>
    Disk.Shares.of_put hqq' (hd ▸ hs)
  have hother : ∀ q, q ≠ Path.named p → ¬ s.disk.Shares (.named p) q →
      d.content q = s.disk.content q := fun q hqp hq =>
    hd ▸ Disk.content_put_of_not_shares hqp hq
  have hkept := kept_named h (d := d) (fun j hj => hne p _ hj rfl) hother
  have hview : (s.onDisk d).databases = Visible.step s.databases (.openDb p fault) := by
    rw [databases_named h hother, ← hd, Disk.content_put_self]
    rfl
  split
  · refine ⟨h.session rfl hshared (fun v q hv => ?_) (fun j => ⟨fun q hq => ?_, (hkept j).source,
      (hkept j).stage⟩), hview⟩
    · by_cases hvw : v = w
      · subst hvw
        simp only [Function.update_self, Option.some.injEq] at hv
        subst hv
        simp [System.acquire]
      · simp only [Function.update_of_ne hvw] at hv
        have hq := h.opened v q hv
        simpa [System.acquire, System.onDisk, Function.update_of_ne (hne q _ hq)] using hq
    · simpa [System.acquire, System.onDisk, Function.update_of_ne (hne q _ hq)] using hq
  · exact ⟨h.session rfl hshared h.opened hkept, hview⟩

theorem System.Inv.close (h : s.Inv) {w : ℕ} {p : String} (hw : s.sessions w = some p) :
    ({ s.release p with sessions := Function.update s.sessions w none } : System).Inv := by
  have hlock := h.opened w p hw
  have hother : ∀ q o, s.locks q = some o → o ≠ .module w → (s.release p).locks q = some o := by
    intro q o hq ho
    have hne : q ≠ p := by
      rintro rfl
      rw [hlock, Option.some.injEq] at hq
      exact ho hq.symm
    simp only [System.release, Function.update_of_ne hne, hq]
  refine h.session rfl (fun _ _ _ hs => hs) (fun v q hv => ?_)
    (fun j => ⟨fun q hq => hother q _ hq (by simp), fun _ _ _ hx => hx, fun _ => rfl⟩)
  have hvw : v ≠ w := by
    rintro rfl
    simp at hv
  have hq : s.sessions v = some q := by
    simpa [Function.update_of_ne hvw] using hv
  exact hother q _ (h.opened v q hq) (by simpa using hvw)

end Others

/-! ## Runs -/

theorem System.Inv.step {s : System} {a : Action} (ha : s.Offline a) (h : s.Inv) :
    (s.step a).Inv ∧
      (s.step a).databases = Machine.run Visible.step s.databases (s.shows a) := by
  cases a with
  | start i args =>
    simp only [System.step, System.shows]
    cases hr : s.runs i with
    | none => exact ⟨h.start hr args, rfl⟩
    | some r => exact ⟨h, rfl⟩
  | tool i fault =>
    simp only [System.step, System.shows]
    cases hr : s.runs i with
    | none => exact ⟨h, rfl⟩
    | some r => exact h.tick hr fault
  | kill i left =>
    simp only [System.step, System.shows]
    cases hr : s.runs i with
    | none => exact ⟨h, rfl⟩
    | some r =>
      dsimp only
      split
      · exact h.kill hr left
      · exact ⟨h, rfl⟩
  | openDb w p fault =>
    by_cases hopens : s.opens w p fault = true
    · simp only [System.shows, hopens, if_true]
      exact h.openDb hopens
    · simp only [System.step, System.shows, hopens, if_false, Bool.false_eq_true]
      exact ⟨h, rfl⟩
  | commit w tx =>
    simp only [System.step, System.shows]
    cases hw : s.sessions w with
    | none => exact ⟨h, rfl⟩
    | some p =>
      refine h.transact (fun j hj => ?_) tx
      rw [h.opened w p hw] at hj
      cases hj
  | close w =>
    simp only [System.step, System.shows]
    cases hw : s.sessions w with
    | none => exact ⟨h, rfl⟩
    | some p => exact ⟨h.close hw, rfl⟩
  | bypass p tx => exact h.transact ha tx

/-- While a run of the tool is between its lock and the release of it, no other run copies
its source and no session has it open. -/
theorem System.Inv.exclusive {s : System} (h : s.Inv) {i : ℕ} {r : CopyRun}
    (hr : s.runs i = some r) (hholds : r.phase.holds = true) :
    (∀ j q, s.runs j = some q → q.phase.holds = true → q.args.source = r.args.source → j = i) ∧
      ∀ w, s.sessions w ≠ some r.args.source := by
  have hlock := (h.runs i r hr).held hholds
  constructor
  · intro j q hq hqholds hsource
    have hqlock := (h.runs j q hq).held hqholds
    rw [hsource, hlock, Option.some.injEq, Owner.tool.injEq] at hqlock
    exact hqlock.symm
  · intro w hw
    rw [h.opened w _ hw] at hlock
    cases hlock

/-- Every run of the system, with processes killed and calls failing wherever they may, is on
the databases a run in which every publication is a whole copy made at once, and while a
run of the tool has its lock its source is no other's. -/
theorem copies_atomic (s : System) (hfresh : s.Fresh) (acts : List Action)
    (hoffline : ∀ x ∈ Machine.trace System.step s acts, x.1.Offline x.2) :
    let tr := Machine.trace System.step s acts
    let s' := Machine.run System.step s acts
    s'.databases =
      Machine.run Visible.step s.databases (tr.flatMap fun x => x.1.shows x.2) ∧
    ∀ i r, s'.runs i = some r → r.phase.holds = true →
      (∀ j q, s'.runs j = some q → q.phase.holds = true → q.args.source = r.args.source →
        j = i) ∧
      ∀ w, s'.sessions w ≠ some r.args.source := by
  intro tr s'
  have hinv : s'.Inv := Machine.run_invariant_along (P := System.Offline) hfresh.inv
    (fun _ _ ha hI => (hI.step ha).1) acts hoffline
  refine ⟨?_, fun i r hr hholds => hinv.exclusive hr hholds⟩
  exact Machine.run_refines (P := System.Offline) hfresh.inv (fun _ _ ha hI => (hI.step ha).1)
    (fun _ _ ha hI => (hI.step ha).2) acts hoffline

/-- The migration of `legacyFile`. -/
def cutover : CopyArgs where
  source := "a.db"
  output := "b.db"
  command := .migrate ⟨10, true, true⟩
  digest := fun rows => String.join (rows.map fun r => r.eventId.getD "")
  atMs := 0
  ops := noOpsPlan
  fault := noFault

/-- One database, and nobody at work. -/
def legacySystem : System where
  disk := {
    entry := fun p => if p = .named "a.db" then some 0 else none
    data := fun _ => legacyFile
    next := 1
    entry_lt := by
      intro p i h
      split at h
      · cases h
        exact Nat.zero_lt_one
      · cases h }
  locks := fun _ => none
  runs := fun _ => none
  sessions := fun _ => none

theorem legacySystem_fresh : legacySystem.Fresh where
  runs _ := rfl
  sessions _ := rfl
  locks _ := rfl
  stages i := rfl
  apart := by
    rintro p q hne ⟨i, hp, hq⟩
    have hname : ∀ n : String, legacySystem.disk.entry (.named n) = some i → n = "a.db" := by
      intro n hn
      by_contra hno
      have hnone : legacySystem.disk.entry (.named n) = none := if_neg (by simpa using hno)
      rw [hnone] at hn
      cases hn
    exact hne ((hname p hp).trans (hname q hq).symm)

/-- The first run is killed while it rewrites its copy, the second is not. -/
def secondTry : List Action :=
  .start 0 cutover :: List.replicate 4 (.tool 0 none) ++
    .kill 0 .new :: .start 1 cutover :: List.replicate 9 (.tool 1 none)

theorem secondTry_offline :
    ∀ x ∈ Machine.trace System.step legacySystem secondTry, x.1.Offline x.2 := by
  rintro ⟨s, a⟩ hx
  have ha := Machine.mem_of_mem_trace hx
  cases a with
  | bypass p tx => simp [secondTry] at ha
  | _ => trivial

/-- The migration is one step. -/
theorem copies_atomic_second :
    let s' := Machine.run System.step legacySystem secondTry
    ∃ steps, s'.databases = Machine.run Visible.step legacySystem.databases steps ∧
      steps.length = 1 ∧ s'.databases "b.db" = some migratedFile :=
  ⟨_, (copies_atomic legacySystem legacySystem_fresh secondTry secondTry_offline).1, rfl, rfl⟩

/-! ## What is under the name of an output -/

/-- What the tool is for: the file `y` is the migration or the retirement of `x`. -/
def CopyArgs.Delivers (a : CopyArgs) (x y : DbFile) : Prop :=
  match a.command with
  | .migrate _ => x.Legacy → Migrated x.rows y ∧ y.Accepted
  | .retire args => ∃ s, FileRetirement args a.atMs x y s

theorem CopyArgs.delivers {a : CopyArgs} {x y : DbFile} {u : Unit}
    (h : a.transform.run x = .ok u y) : a.Delivers x y := by
  unfold CopyArgs.transform at h
  unfold CopyArgs.Delivers
  cases hc : a.command with
  | migrate args =>
    rw [hc] at h
    intro hx
    have hmigrated := Migrated.of_migrate hx h
    exact ⟨hmigrated, hmigrated.accepted⟩
  | retire args =>
    rw [hc] at h
    exact retireFile_ok h

/-- The step `x` publishes `y` under the name `p`: nothing was there, and `y` is what the run
makes of its source as it stands. -/
structure Publishes (x : System × Action) (p : String) (y : DbFile) : Prop where
  absent : x.1.databases p = none
  run : ∃ i r d, x.2 = .tool i none ∧ x.1.runs i = some r ∧ r.phase = .publish ∧
    r.args.output = p ∧ x.1.databases r.args.source = some d ∧
    r.args.transform.run d = .ok () y ∧ r.args.Delivers d y

/-- The action opens the database `p` or writes it without a lock. -/
def Action.Names (p : String) : Action → Prop
  | .openDb _ q _ => q = p
  | .bypass q _ => q = p
  | _ => False

section Outputs

variable {s : System} {p : String}

/-- A name no session has open and nobody writes changes by a publication only. -/
theorem System.Inv.untouched (h : s.Inv) {a : Action} (ha : s.Offline a) (hnames : ¬ a.Names p)
    (hopen : ∀ w, s.sessions w ≠ some p) :
    (s.step a).databases p = s.databases p ∨
      ∃ y, (s.step a).databases p = some y ∧ Publishes (s, a) p y := by
  rw [(h.step ha).2]
  cases a with
  | start i args => exact Or.inl rfl
  | kill i left => exact Or.inl rfl
  | close w => exact Or.inl rfl
  | tool i fault =>
    simp only [System.shows]
    cases hr : s.runs i with
    | none => exact Or.inl rfl
    | some r =>
      dsimp only
      split
      · rename_i hpub
        rcases hpub with ⟨hp, rfl⟩
        rcases (h.runs i r hr).built hp with ⟨x, y, hsource, hrun, -⟩
        rw [Machine.run_cons, Machine.run_nil]
        cases hout : s.databases r.args.output with
        | some z =>
          left
          simp only [Visible.step, hsource, hout]
        | none =>
          simp only [Visible.step, hsource, hout, hrun]
          by_cases hpo : p = r.args.output
          · subst hpo
            exact Or.inr ⟨y, Function.update_self .., hout, i, r, x, rfl, hr, hp, rfl, hsource, hrun,
              CopyArgs.delivers hrun⟩
          · exact Or.inl (Function.update_of_ne hpo ..)
      · exact Or.inl rfl
  | openDb w q fault =>
    left
    simp only [System.shows]
    split
    · exact Function.update_of_ne (Ne.symm hnames) ..
    · rfl
  | commit w tx =>
    left
    simp only [System.shows]
    cases hw : s.sessions w with
    | none => rfl
    | some q =>
      refine Function.update_of_ne ?_ ..
      rintro rfl
      exact hopen w hw
  | bypass q tx => exact Or.inl (Function.update_of_ne (Ne.symm hnames) ..)

theorem sessions_tick (s : System) (i : ℕ) (r : CopyRun) (fault : Option String) :
    (s.tick i r fault).sessions = s.sessions := by
  unfold System.tick
  split <;> (try split) <;> (try split) <;> rfl

theorem sessions_kill (s : System) (i : ℕ) (r : CopyRun) (left : DbFile) :
    (s.kill i r left).sessions = s.sessions := by
  unfold System.kill
  split <;> split <;> rfl

/-- Who opens `p` is named. -/
theorem sessions_step {a : Action} (hnames : ¬ a.Names p) (hopen : ∀ w, s.sessions w ≠ some p)
    (w : ℕ) : (s.step a).sessions w ≠ some p := by
  have hsame : ∀ s' : System, s'.sessions = s.sessions → s'.sessions w ≠ some p := by
    intro s' hs'
    rw [hs']
    exact hopen w
  cases a with
  | start i args =>
    simp only [System.step]
    split
    · exact hsame _ rfl
    · exact hsame _ rfl
  | tool i fault =>
    simp only [System.step]
    split
    · exact hsame _ rfl
    · exact hsame _ (sessions_tick ..)
  | kill i left =>
    simp only [System.step]
    split
    · exact hsame _ rfl
    · split
      · exact hsame _ (sessions_kill ..)
      · exact hsame _ rfl
  | openDb v q fault =>
    simp only [System.step]
    split
    · split
      · by_cases hwv : w = v
        · rw [hwv]
          simp only [Function.update_self]
          exact fun heq => hnames (Option.some.inj heq)
        · simpa [Function.update_of_ne hwv] using hopen w
      · exact hsame _ rfl
    · exact hsame _ rfl
  | commit v tx =>
    simp only [System.step]
    split
    · exact hsame _ rfl
    · exact hsame _ rfl
  | close v =>
    simp only [System.step]
    split
    · exact hsame _ rfl
    · by_cases hwv : w = v
      · rw [hwv]
        simp
      · simpa [Function.update_of_ne hwv] using hopen w
  | bypass q tx => exact hsame _ rfl

theorem Visible.copy_cases (dbs : String → Option DbFile) (a : CopyArgs) :
    Visible.step dbs (.copy a) = dbs ∨
      ∃ y, Visible.step dbs (.copy a) = Function.update dbs a.output (some y) := by
  simp only [Visible.step]
  cases dbs a.source with
  | none => exact Or.inl rfl
  | some x =>
    cases dbs a.output with
    | some z => exact Or.inl rfl
    | none =>
      dsimp only
      cases a.transform.run x with
      | ok u y => exact Or.inr ⟨y, rfl⟩
      | error e y => exact Or.inl rfl

/-- No step removes a database. -/
theorem Visible.keeps {dbs : String → Option DbFile} (b : Visible) (h : (dbs p).isSome = true) :
    (Visible.step dbs b p).isSome = true := by
  cases b with
  | openDb q fault =>
    by_cases hpq : p = q
    · simp [Visible.step, hpq]
    · simpa [Visible.step, Function.update_of_ne hpq] using h
  | commit q tx =>
    by_cases hpq : p = q
    · simpa [Visible.step, hpq] using hpq ▸ h
    · simpa [Visible.step, Function.update_of_ne hpq] using h
  | copy a =>
    rcases Visible.copy_cases dbs a with hsame | ⟨y, hnew⟩
    · rw [hsame]
      exact h
    · rw [hnew]
      by_cases hpo : p = a.output
      · simp [hpo]
      · simpa [Function.update_of_ne hpo] using h

theorem System.Inv.keeps (h : s.Inv) {a : Action} (ha : s.Offline a)
    (hp : (s.databases p).isSome = true) : ((s.step a).databases p).isSome = true := by
  rw [(h.step ha).2]
  exact Machine.run_invariant (I := fun dbs : String → Option DbFile => (dbs p).isSome = true) hp
    (fun _ b hdbs => b.keeps hdbs) _

/-- The run got past its publication, without an exception since. -/
def Phase.delivered : Phase → Bool
  | .sync => true
  | .unlink none => true
  | .unlock none => true
  | .exited none => true
  | _ => false

/-- Where a call of a run leads: past the publication only from there, or by it. -/
theorem tick_enters {i : ℕ} {r : CopyRun} (hr : s.runs i = some r) (fault : Option String) :
    ∃ (s' : System) (phase : Phase), s.tick i r fault = s'.enter i r phase ∧ s'.runs = s.runs ∧
      (phase.delivered = true → r.phase.delivered = true ∨
        (r.phase = .publish ∧ s'.databases r.args.output = s.disk.content (.stage i))) := by
  unfold System.tick
  cases hp : r.phase with
  | checks =>
    dsimp only
    split
    · exact ⟨_, _, rfl, rfl, fun h => by cases h⟩
    · exact ⟨_, _, rfl, rfl, fun h => by cases h⟩
  | lock =>
    dsimp only
    split
    · exact ⟨_, _, rfl, rfl, fun h => by cases h⟩
    · exact ⟨_, _, rfl, rfl, fun h => by cases h⟩
  | stage =>
    cases fault with
    | some msg => exact ⟨_, _, rfl, rfl, fun h => by cases h⟩
    | none => exact ⟨_, _, rfl, rfl, fun h => by cases h⟩
  | copy =>
    dsimp only
    split
    · exact ⟨_, _, rfl, rfl, fun h => by cases h⟩
    · exact ⟨_, _, rfl, rfl, fun h => by cases h⟩
    · exact ⟨_, _, rfl, rfl, fun h => by cases h⟩
  | transform =>
    dsimp only
    split
    · exact ⟨_, _, rfl, rfl, fun h => by cases h⟩
    · exact ⟨_, _, rfl, rfl, fun h => by cases h⟩
    · split
      · exact ⟨_, _, rfl, rfl, fun h => by cases h⟩
      · exact ⟨_, _, rfl, rfl, fun h => by cases h⟩
  | publish =>
    dsimp only
    split
    · exact ⟨_, _, rfl, rfl, fun h => by cases h⟩
    · exact ⟨_, _, rfl, rfl, fun _ => Or.inr ⟨rfl, Disk.content_link_self⟩⟩
  | sync => exact ⟨_, _, rfl, rfl, fun _ => Or.inl rfl⟩
  | unlink err =>
    cases fault with
    | some msg => exact ⟨_, _, rfl, rfl, fun h => by cases h⟩
    | none => cases err <;> exact ⟨_, _, rfl, rfl, fun h => Or.inl h⟩
  | unlock err => cases err <;> exact ⟨_, _, rfl, rfl, fun h => Or.inl h⟩
  | exited err =>
    refine ⟨s, r.phase, ?_, rfl, fun h => Or.inl (hp ▸ h)⟩
    simp [System.enter, ← hr]
  | killed =>
    refine ⟨s, r.phase, ?_, rfl, fun h => Or.inl (hp ▸ h)⟩
    simp [System.enter, ← hr]

/-- Every run past its publication has its output. -/
def System.Delivered (s : System) : Prop :=
  ∀ i r, s.runs i = some r → r.phase.delivered = true → (s.databases r.args.output).isSome = true

/-- A run that is new or killed has nothing to deliver. -/
theorem System.Delivered.update {s' : System} (h : s.Delivered) {i : ℕ} {q : CopyRun}
    (hruns : s'.runs = Function.update s.runs i (some q))
    (hkeeps : ∀ p, (s.databases p).isSome = true → (s'.databases p).isSome = true)
    (hq : q.phase.delivered = true → (s'.databases q.args.output).isSome = true) :
    s'.Delivered := by
  intro j r hr hd
  rw [hruns] at hr
  by_cases hji : j = i
  · rw [hji, Function.update_self, Option.some.injEq] at hr
    subst hr
    exact hq hd
  · rw [Function.update_of_ne hji] at hr
    exact hkeeps _ (h j r hr hd)

theorem System.Delivered.step (h : s.Delivered) (hinv : s.Inv) {a : Action} (ha : s.Offline a) :
    (s.step a).Delivered := by
  have hkeeps : ∀ p, (s.databases p).isSome = true → ((s.step a).databases p).isSome = true :=
    fun p hp => hinv.keeps ha hp
  have hsame : (s.step a).runs = s.runs → (s.step a).Delivered := fun hruns j r hr hd =>
    hkeeps _ (h j r (hruns ▸ hr) hd)
  cases a with
  | start i args =>
    cases hr : s.runs i with
    | none =>
      have hstep : (s.step (.start i args)).runs = Function.update s.runs i (some ⟨args, .checks⟩) := by
        simp only [System.step, hr]
      exact h.update hstep hkeeps fun hd => by cases hd
    | some r => exact hsame (by simp only [System.step, hr])
  | tool i fault =>
    cases hr : s.runs i with
    | none => exact hsame (by simp only [System.step, hr])
    | some r =>
      have hstep : s.step (.tool i fault) = s.tick i r fault := by simp only [System.step, hr]
      rcases tick_enters hr fault with ⟨s', phase, henter, hruns, hphase⟩
      have hdbs : (s.step (.tool i fault)).databases = s'.databases := by
        rw [hstep, henter]
        rfl
      refine h.update (i := i) (q := { r with phase := phase }) ?_ hkeeps fun hd => ?_
      · rw [hstep, henter, ← hruns]
        rfl
      · rcases hphase hd with hold | ⟨hp, hout⟩
        · exact hkeeps _ (h i r hr hold)
        · rcases (hinv.runs i r hr).built hp with ⟨x, y, -, -, hstage⟩
          rw [hdbs]
          exact hout.trans hstage ▸ rfl
  | kill i left =>
    cases hr : s.runs i with
    | none => exact hsame (by simp only [System.step, hr])
    | some r =>
      by_cases halive : r.phase.alive = true
      · have hstep : (s.step (.kill i left)).runs =
            Function.update s.runs i (some { r with phase := .killed }) := by
          simp only [System.step, hr, halive, if_true]
          unfold System.kill
          split <;> split <;> rfl
        exact h.update hstep hkeeps fun hd => by cases hd
      · exact hsame (by simp only [System.step, hr, halive, if_false, Bool.false_eq_true])
  | openDb w p fault =>
    refine hsame ?_
    simp only [System.step]
    split
    · split <;> rfl
    · rfl
  | commit w tx =>
    refine hsame ?_
    simp only [System.step]
    split <;> rfl
  | close w =>
    refine hsame ?_
    simp only [System.step]
    split <;> rfl
  | bypass p tx => exact hsame rfl

end Outputs

/-- A name that is free at first, and that no session opens: if a file is there after any run
of the system, it was put there whole by one publication and is still what that run of the
tool made of its source. And the tool reports success only when its output is there. -/
theorem published_copy (s : System) (hfresh : s.Fresh) (acts : List Action)
    (hoffline : ∀ x ∈ Machine.trace System.step s acts, x.1.Offline x.2) (p : String)
    (habsent : s.databases p = none) (hnames : ∀ a ∈ acts, ¬ a.Names p) :
    let tr := Machine.trace System.step s acts
    let s' := Machine.run System.step s acts
    (∀ y, s'.databases p = some y → ∃ x ∈ tr, Publishes x p y) ∧
    ∀ i r, s'.runs i = some r → r.phase = .exited none →
      (s'.databases r.args.output).isSome = true := by
  intro tr s'
  have hboth : ∀ x ∈ tr, x.1.Offline x.2 ∧ ¬ x.2.Names p := fun x hx =>
    ⟨hoffline x hx, hnames x.2 (Machine.mem_of_mem_trace hx)⟩
  have hrun : (s'.Inv ∧ s'.Delivered) ∧ (∀ w, s'.sessions w ≠ some p) ∧
      ∀ y, s'.databases p = some y → ∃ x ∈ tr, Publishes x p y := by
    refine Machine.trace_invariant (P := fun (s : System) a => s.Offline a ∧ ¬ a.Names p)
      (J := fun tr (s : System) => (s.Inv ∧ s.Delivered) ∧ (∀ w, s.sessions w ≠ some p) ∧
        ∀ y, s.databases p = some y → ∃ x ∈ tr, Publishes x p y) ?_ ?_ acts hboth
    · refine ⟨⟨hfresh.inv, fun i r hr => ?_⟩, fun w hw => ?_, fun y hy => ?_⟩
      · rw [hfresh.runs] at hr
        cases hr
      · rw [hfresh.sessions] at hw
        cases hw
      · rw [habsent] at hy
        cases hy
    · rintro tr s a ⟨ha, hname⟩ ⟨⟨hinv, hdelivered⟩, hopen, hpub⟩
      refine ⟨⟨(hinv.step ha).1, hdelivered.step hinv ha⟩, sessions_step hname hopen, ?_⟩
      intro y hy
      rcases hinv.untouched ha hname hopen with hsame | ⟨z, hz, hnew⟩
      · rcases hpub y (hsame ▸ hy) with ⟨x, hx, hold⟩
        exact ⟨x, List.mem_append_left _ hx, hold⟩
      · have heq : z = y := Option.some.inj (hz.symm.trans hy)
        exact ⟨(s, a), by simp, heq ▸ hnew⟩
  refine ⟨hrun.2.2, fun i r hr hexit => hrun.1.2 i r hr ?_⟩
  rw [hexit]
  rfl

/-- The output of the second run is the migration. -/
theorem published_copy_second :
    let tr := Machine.trace System.step legacySystem secondTry
    (∃ x ∈ tr, Publishes x "b.db" migratedFile) ∧
      ∃ r, (Machine.run System.step legacySystem secondTry).runs 1 = some r ∧
        r.phase = .exited none := by
  intro tr
  have hnames : ∀ a ∈ secondTry, ¬ a.Names "b.db" := by
    intro a ha
    cases a with
    | openDb w p fault => simp [secondTry] at ha
    | bypass p tx => simp [secondTry] at ha
    | _ => exact id
  exact ⟨(published_copy legacySystem legacySystem_fresh secondTry secondTry_offline "b.db" rfl
    hnames).1 migratedFile rfl, _, rfl, rfl⟩

end EventKafka
