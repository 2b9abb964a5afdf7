import HypeLlm.Admin.Drafts
import HypeLlm.Lib.Runs

/-!
# The draft store and its log

Drafts are kept in a bounded map under identifiers drawn from a counter.  A creation draws its
identifier first and takes the lock of the map afterwards; a validation reads the text under one lock,
loads it under none, and notes the outcome under another.  The handlers write a record for each draft
created and each draft closed, and a restart rebuilds the store from these records, in the order of the
log, with a counter past every identifier it read.

What happened is kept beside the store as a history, the newest first.
-/

namespace HypeLlm.Admin

open HypeLlm.Words HypeLlm.Runs

/-- The configuration loader. -/
structure Loader (C E D : Type) where
  load : String → ℕ → Except (List E) C
  digest : C → D

variable {C E D F : Type}

/-- The errors a load reports. -/
def Loader.errors (loader : Loader C E D) (text : String) (version : ℕ) : List E :=
  match loader.load text version with
  | .ok _ => []
  | .error es => es

def Loader.digest? (loader : Loader C E D) (text : String) (version : ℕ) : Option D :=
  match loader.load text version with
  | .ok config => some (loader.digest config)
  | .error _ => none

/-! ### The store -/

inductive PublishRefusal where
  | noSuchDraft
  | notValidated
  | invalid
  | selfApproval
  deriving Repr, DecidableEq

structure DraftStore (E D : Type) where
  drafts : Std.TreeMap String (Draft E D)
  nextId : ℕ
  /-- Whether an author may publish their own draft. -/
  allowSelfApproval : Bool
  capacity : ℕ

namespace DraftStore

def new : DraftStore E D := ⟨∅, 1, false, 256⟩

variable (s : DraftStore E D)

/-- Where the store is full, the draft created first goes. -/
def evictOldest : DraftStore E D :=
  if s.capacity ≤ s.drafts.size then
    match s.drafts.values.argmin fun d => d.createdAtMillis with
    | some oldest => { s with drafts := s.drafts.erase oldest.id }
    | none => s
  else s

/-- Under the lock of the map: make room and put the draft in. -/
def insert (d : Draft E D) : DraftStore E D :=
  { s.evictOldest with drafts := s.evictOldest.drafts.insert d.id d }

/-- The counter past the number of an identifier. -/
def advancePast (id : String) : DraftStore E D :=
  match parseDraftId id with
  | some number => { s with nextId := max s.nextId (satAdd u64Max number 1) }
  | none => s

def restore (d : Draft E D) : DraftStore E D := (s.advancePast d.id).insert d

def close (id : String) : DraftStore E D := { s with drafts := s.drafts.erase id }

def get (id : String) (tenant : Id) : Option (Draft E D) := s.drafts[id]?.filter fun d => d.tenant = tenant

/-- The second lock of a validation: note the outcome. -/
def noteOutcome (loader : Loader C E D) (id text : String) (version : ℕ) : DraftStore E D :=
  match s.drafts[id]? with
  | none => s
  | some d =>
    { s with
      drafts := s.drafts.insert id
        { d with
          validated := true
          digest := loader.digest? text version
          errors := loader.errors text version } }

def authored (d : Draft E D) (p : Id) : Bool := d.author = p || d.authorAccountable = some p

/-- The draft as it stands when it is read decides. -/
def preparePublishBy (loader : Loader C E D) (id : String) (publishers : List Id) (tenant : Id)
    (version : ℕ) : Except PublishRefusal C :=
  match s.get id tenant with
  | none => .error .noSuchDraft
  | some d =>
    if !d.validated then .error .notValidated
    else if d.errors ≠ [] then .error .invalid
    else if !s.allowSelfApproval && publishers.any (authored d) then .error .selfApproval
    else match loader.load d.text version with
      | .ok config => .ok config
      | .error _ => .error .invalid

end DraftStore

/-! ### The log -/

inductive Record where
  | policyDraft (payload : List UInt8)
  | policyDraftClosed (payload : List UInt8)
  deriving DecidableEq

def restoreRecord (wire : Wire F) (s : DraftStore E D) : Record → DraftStore E D
  | .policyDraft payload =>
    match wire.fromPayload payload with
    | some d => s.restore d
    | none => s
  | .policyDraftClosed payload =>
    match Utf8.decode payload with
    | some id => s.close (String.ofList id)
    | none => s

def restoreDrafts (wire : Wire F) (log : List Record) : DraftStore E D :=
  log.foldl (restoreRecord wire) .new

/-! ### The process -/

/-- A request between two of its locks. -/
inductive Task where
  | idle
  /-- The identifier is drawn and the draft not yet put in. -/
  | inserting (a : Authored)
  /-- The draft is put in and not yet recorded. -/
  | recording (a : Authored)
  /-- The text is read and the outcome not yet noted. -/
  | validating (id text : String) (version : ℕ)
  deriving DecidableEq

/-- What is remembered of a run. -/
inductive Mark (E : Type) where
  | created (a : Authored)
  /-- The outcome that was noted. -/
  | validated (id : String) (version : ℕ) (errors : List E)
  /-- The store was rebuilt from this log. -/
  | restarted (log : List Record)

structure Node (E D : Type) where
  store : DraftStore E D
  log : List Record
  tasks : ℕ → Task
  history : List (Mark E)

inductive Event where
  | createBy (task : ℕ) (text : String) (author : Id) (authorAccountable : Option Id) (tenant : Id)
      (now : ℕ)
  | createInsert (task : ℕ)
  /-- The handler records the draft it created. -/
  | record (task : ℕ)
  | validateRead (task : ℕ) (id : String) (tenant : Id) (version : ℕ)
  | validateWrite (task : ℕ)
  | recordClosed (id : String)
  | close (id : String)
  | restart

namespace Node

variable (wire : Wire F) (loader : Loader C E D) (n : Node E D)

def init : Node E D := ⟨.new, [], fun _ => .idle, []⟩

def setTask (task : ℕ) (t : Task) : Node E D := { n with tasks := Function.update n.tasks task t }

/-- What the next creation would author. -/
def drafted (text : String) (author : Id) (authorAccountable : Option Id) (tenant : Id) (now : ℕ) :
    Authored :=
  ⟨draftId n.store.nextId, text, author, tenant, authorAccountable, now⟩

/-- The identifier is drawn. -/
def drawId (task : ℕ) (a : Authored) : Node E D :=
  { n.setTask task (.inserting a) with
    store := { n.store with nextId := wrapAdd 64 n.store.nextId 1 }
    history := .created a :: n.history }

def createInsert (task : ℕ) : Node E D :=
  match n.tasks task with
  | .inserting a => { n.setTask task (.recording a) with store := n.store.insert a.unvalidated }
  | _ => n

def record (task : ℕ) : Node E D :=
  match n.tasks task with
  | .recording a => { n.setTask task .idle with log := n.log ++ [Record.policyDraft (wire.toPayload a)] }
  | _ => n

def validateRead (task : ℕ) (id : String) (tenant : Id) (version : ℕ) : Node E D :=
  match n.store.get id tenant with
  | some d => n.setTask task (.validating id d.text version)
  | none => n

/-- The outcome is noted where the draft is still there. -/
def noted (id text : String) (version : ℕ) : List (Mark E) :=
  match n.store.drafts[id]? with
  | some _ => .validated id version (loader.errors text version) :: n.history
  | none => n.history

def validateWrite (task : ℕ) : Node E D :=
  match n.tasks task with
  | .validating id text version =>
    { n.setTask task .idle with
      store := n.store.noteOutcome loader id text version
      history := n.noted loader id text version }
  | _ => n

def restart : Node E D :=
  ⟨restoreDrafts wire n.log, n.log, fun _ => .idle, .restarted n.log :: n.history⟩

def step : Event → Node E D
  | .createBy task text author authorAccountable tenant now =>
    if n.tasks task = .idle then n.drawId task (n.drafted text author authorAccountable tenant now)
    else n
  | .createInsert task => n.createInsert task
  | .record task => n.record wire task
  | .validateRead task id tenant version =>
    if n.tasks task = .idle then n.validateRead task id tenant version else n
  | .validateWrite task => n.validateWrite loader task
  | .recordClosed id => { n with log := n.log ++ [Record.policyDraftClosed (Utf8.encode id.toList)] }
  | .close id => { n with store := n.store.close id }
  | .restart => n.restart wire

/-! ### Reading the history -/

/-- The last creation that was given the identifier. -/
def latest (id : String) : Option Authored :=
  n.history.findSome? fun
    | .created a => if a.id = id then some a else none
    | _ => none

/-- What happened since the last restart. -/
def sinceRestart : List (Mark E) :=
  n.history.takeWhile fun
    | .restarted _ => false
    | _ => true

def creations : ℕ :=
  n.history.countP fun
    | .created _ => true
    | _ => false

end Node

end HypeLlm.Admin
