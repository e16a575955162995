import EventKafka.File.Retire
import EventKafka.Lib.Disk
import EventKafka.Lib.Machine

/-! # Copies and sessions on one disk

Any number of runs of `outbox_ops.py migrate` and `retire` and of module sessions, on any
files. Each takes an exclusive `flock` on the name of a database with `.lock` appended: the
tool on its source, before the copy, and a session on its own database, before it opens it.
The tool works on a stage file of its own and publishes it with `os.link`, which never
replaces a name.

One action is one system call that matters, of one of the parties, in any order; a process
may be killed between any two of them, which frees its locks and leaves its stage file as it
is. `bypass` is a write by a program that knows no lock, such as an older binary.

Names are resolved paths. The bytes of a file are its database: a commit is atomic and
durable.
-/

namespace EventKafka

open Sql

/-- A name of a file: one that a command line or the configuration gives, or that of the
stage file run `i` of the tool makes for itself. -/
inductive Path where
  | named (p : String)
  | stage (i : ℕ)
deriving DecidableEq, Repr

/-- The holder of a lock. -/
inductive Owner where
  | tool (i : ℕ)
  | module (w : ℕ)
deriving DecidableEq, Repr

/-! ## The tool -/

/-- `args.command`, with the arguments of the command. -/
inductive Copying where
  | migrate (args : MigrateArgs)
  | retire (args : RetireArgs)
deriving DecidableEq, Repr

/-- The command line of a run, its digest and its clock, and what its statements meet. -/
structure CopyArgs where
  source : String
  output : String
  command : Copying
  digest : List FileRow → String
  atMs : Int
  ops : OpsPlan
  fault : FaultPlan

/-- The text of a check that failed. -/
def demand (ok : Bool) (msg : String) : Option String := if ok then none else some msg

/-- The checks of `main`. -/
def Copying.checkArgs : Copying → Option String
  | .migrate args => demand (0 < args.maxRows)
      "positive --max-rows and a new --output for copy operations required"
  | .retire args => demand (0 < args.maxRows)
      "positive --max-rows and a new --output for copy operations required" <|>
      demand (args.topic ≠ "" && args.callId ≠ "") "--topic and --call-id required"

/-- `--offline-confirm`. -/
def Copying.offlineConfirm : Copying → Bool
  | .migrate args => args.offlineConfirm
  | .retire args => args.offlineConfirm

/-- The second flag of the command. -/
def Copying.checkConsent : Copying → Option String
  | .migrate args => demand args.acceptUnknownLegacyOrder
      "--accept-unknown-legacy-order is required; this is a declared cutover order, not recovered history"
  | .retire args => demand args.rejectFutureCallId
      "--reject-future-call-id is required; retirement permanently rejects this topic/call ID"

/-- The checks before the lock, in `main` and in `run`; `isFile` says which names exist. -/
def CopyArgs.refusal (a : CopyArgs) (isFile : String → Bool) : Option String :=
  demand (a.output ≠ "") "positive --max-rows and a new --output for copy operations required" <|>
  a.command.checkArgs <|>
  demand (isFile a.source) "source database must exist" <|>
  demand a.command.offlineConfirm
    "stop all writers first; --offline-confirm is required (old binaries ignore flock)" <|>
  demand (!isFile a.output && a.output ≠ a.source)
    "output must be a new separate path; never overwrite" <|>
  a.command.checkConsent

/-- What the run makes of its copy, from `fingerprint` to `commit`. -/
def CopyArgs.transform (a : CopyArgs) : Program DbFile Unit :=
  match a.command with
  | .migrate args => migrate a.digest args a.ops
  | .retire args => retireFile a.digest args a.atMs a.ops a.fault

/-- Where a run is: before which of its calls, or how it ended. -/
inductive Phase where
  | checks
  | lock
  | stage
  | copy
  | transform
  | publish
  | sync
  -- the `finally` block, with the exception it was entered with
  | unlink (err : Option String)
  | unlock (err : Option String)
  | exited (err : Option String)
  | killed
deriving DecidableEq, Repr

/-- A run of the tool. -/
structure CopyRun where
  args : CopyArgs
  phase : Phase

/-! ## The system -/

/-- The disk, the locks by the name of the database, the runs of the tool and the databases
that sessions have open. -/
structure System where
  disk : Disk Path DbFile
  locks : String → Option Owner
  runs : ℕ → Option CopyRun
  sessions : ℕ → Option String

/-- The databases by name. -/
def System.databases (s : System) : String → Option DbFile := fun p => s.disk.content (.named p)

def System.isFile (s : System) (p : String) : Bool := (s.databases p).isSome

inductive Action where
  /-- A new process of the tool. -/
  | start (i : ℕ) (args : CopyArgs)
  /-- The next call of run `i`, which may fail. -/
  | tool (i : ℕ) (fault : Option String)
  /-- Run `i` is killed; its stage file holds `left` when that was being written. -/
  | kill (i : ℕ) (left : DbFile)
  /-- `Outbox::open`. -/
  | openDb (w : ℕ) (p : String) (fault : FilePlan)
  /-- A transaction of an open session. -/
  | commit (w : ℕ) (tx : DbFile → DbFile)
  /-- `Outbox::close`, or the end of the process. -/
  | close (w : ℕ)
  | bypass (p : String) (tx : DbFile → DbFile)

/-- Run `i` is at `phase` now. -/
def System.enter (s : System) (i : ℕ) (r : CopyRun) (phase : Phase) : System :=
  { s with runs := Function.update s.runs i (some { r with phase := phase }) }

def System.acquire (s : System) (p : String) (o : Owner) : System :=
  { s with locks := Function.update s.locks p (some o) }

def System.release (s : System) (p : String) : System :=
  { s with locks := Function.update s.locks p none }

def System.onDisk (s : System) (d : Disk Path DbFile) : System := { s with disk := d }

/-- The next call of run `i`. -/
def System.tick (s : System) (i : ℕ) (r : CopyRun) (fault : Option String) : System :=
  match r.phase with
  | .checks =>
    match r.args.refusal s.isFile with
    | some msg => s.enter i r (.exited (some msg))
    | none => s.enter i r .lock
  | .lock =>
    match fault <|> demand (s.locks r.args.source).isNone
        "[Errno 11] Resource temporarily unavailable" with
    | some msg => s.enter i r (.exited (some msg))
    | none => (s.acquire r.args.source (.tool i)).enter i r .stage
  | .stage =>
    match fault with
    -- outside the `try`: the lock goes with the process
    | some msg => (s.release r.args.source).enter i r (.exited (some msg))
    | none => (s.onDisk (s.disk.create (.stage i) .new)).enter i r .copy
  | .copy =>
    match fault, s.databases r.args.source with
    | some msg, _ => s.enter i r (.unlink (some msg))
    | none, none => s.enter i r (.unlink (some "unable to open database file"))
    | none, some x => (s.onDisk (s.disk.put (.stage i) x)).enter i r .transform
  | .transform =>
    match fault, s.disk.content (.stage i) with
    | some msg, _ => s.enter i r (.unlink (some msg))
    | none, none => s.enter i r (.unlink (some "unable to open database file"))
    | none, some x =>
      match r.args.transform.run x with
      | .ok _ y => (s.onDisk (s.disk.put (.stage i) y)).enter i r .publish
      | .error msg y =>
        (s.onDisk (s.disk.put (.stage i) y)).enter i r (.unlink (some msg))
  | .publish =>
    match fault <|> demand (!s.isFile r.args.output) "[Errno 17] File exists" with
    | some msg => s.enter i r (.unlink (some msg))
    | none => (s.onDisk (s.disk.link (.stage i) (.named r.args.output))).enter i r .sync
  | .sync => s.enter i r (.unlink fault)
  | .unlink err =>
    match fault with
    | some msg => s.enter i r (.unlock (some msg))
    | none => (s.onDisk (s.disk.remove (.stage i))).enter i r (.unlock err)
  | .unlock err => (s.release r.args.source).enter i r (.exited err)
  | .exited _ => s
  | .killed => s

/-- The stage file of the run is being written. -/
def Phase.writing : Phase → Bool
  | .copy => true
  | .transform => true
  | _ => false

/-- The process is there. -/
def Phase.alive : Phase → Bool
  | .exited _ => false
  | .killed => false
  | _ => true

/-- The run holds the lock of its source. -/
def Phase.holds : Phase → Bool
  | .stage => true
  | .copy => true
  | .transform => true
  | .publish => true
  | .sync => true
  | .unlink _ => true
  | .unlock _ => true
  | _ => false

/-- The kernel ends run `i`. -/
def System.kill (s : System) (i : ℕ) (r : CopyRun) (left : DbFile) : System :=
  let s := if r.phase.writing then s.onDisk (s.disk.put (.stage i) left) else s
  let s := if r.phase.holds then s.release r.args.source else s
  s.enter i r .killed

/-- What `Outbox::open` finds under a name; `sqlite3_open` makes a file that is not there. -/
def foundFile (f : Option DbFile) : DbFile := f.getD .new

/-- The session can take the lock and open the file. -/
def System.opens (s : System) (w : ℕ) (p : String) (fault : FilePlan) : Bool :=
  (s.sessions w).isNone && (s.locks p).isNone && (fault .openFile).isNone

/-- The file `Outbox::open` leaves, whether it accepted it or not. -/
def afterOpen (fault : FilePlan) (f : DbFile) : DbFile :=
  match (openFile fault).run f with
  | .ok _ f' => f'
  | .error _ f' => f'

def acceptsFile (fault : FilePlan) (f : DbFile) : Bool :=
  match (openFile fault).run f with
  | .ok _ _ => true
  | .error _ _ => false

def System.step (s : System) : Action → System
  | .start i args =>
    match s.runs i with
    | none => { s with runs := Function.update s.runs i (some ⟨args, .checks⟩) }
    | some _ => s
  | .tool i fault =>
    match s.runs i with
    | none => s
    | some r => s.tick i r fault
  | .kill i left =>
    match s.runs i with
    | none => s
    | some r => if r.phase.alive then s.kill i r left else s
  | .openDb w p fault =>
    if s.opens w p fault then
      let f := foundFile (s.databases p)
      let s' := s.onDisk (s.disk.put (.named p) (afterOpen fault f))
      -- a file that is refused is closed, and its lock freed
      if acceptsFile fault f then
        { s'.acquire p (.module w) with sessions := Function.update s.sessions w (some p) }
      else s'
    else s
  | .commit w tx =>
    match s.sessions w with
    | none => s
    | some p => s.onDisk (s.disk.modify (.named p) tx)
  | .close w =>
    match s.sessions w with
    | none => s
    | some p => { s.release p with sessions := Function.update s.sessions w none }
  | .bypass p tx => s.onDisk (s.disk.modify (.named p) tx)

/-- What `--offline-confirm` promises: nothing that knows no lock writes a database while a
run of the tool has its lock. -/
def System.Offline (s : System) : Action → Prop
  | .bypass p _ => ∀ i, s.locks p ≠ some (.tool i)
  | _ => True

/-- No process runs, and no two names are of one file. -/
structure System.Fresh (s : System) : Prop where
  runs : ∀ i, s.runs i = none
  sessions : ∀ w, s.sessions w = none
  locks : ∀ p, s.locks p = none
  stages : ∀ i, s.disk.entry (.stage i) = none
  apart : ∀ p q, p ≠ q → ¬ s.disk.Shares (.named p) (.named q)

end EventKafka
