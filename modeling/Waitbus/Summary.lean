import Waitbus.EventStore

/-! The one-line summary a frame carries: a dispatch over the facets of a row, each rendering
columns of the row and, for the workflow facets, a few values out of its decoded payload. -/

namespace Waitbus.Summary
open Python Json FrameCodec EventStore

def maxBodyDisplayChars : Nat := 160

def bodyTruncatePrefixChars : Nat := maxBodyDisplayChars - 3

/-- `value or default` on a text column. -/
def orText (s : Option String) (default : String) : PyStr :=
  match s with
  | none | some "" => ofText default
  | some s => ofText s

/-- `str(value)` of an integer column. -/
def intText (n : Option SqlInt) : PyStr :=
  match n with
  | none => ofText "None"
  | some n => ofText (toString n.val)

def iso (R : Runtime) (row : Row) : PyStr :=
  ofText (R.isoformat row.receivedAt)

/-- The ` at <time> [src=<ingest_method>]` every renderer ends with. -/
def tail (R : Runtime) (row : Row) : PyStr :=
  ofText " at " ++ iso R row ++ ofText " [src=" ++ ofText row.ingestMethod ++ ofText "]"

def formatAgentMessage (R : Runtime) (row : Row) : PyStr :=
  let frm := orText row.msgFrom "?"
  let rcpt := orText row.msgTo "?"
  let body := join (ofText " ") (splitWords (orText row.msgBody ""))
  let body :=
    if body.length > maxBodyDisplayChars then body.take bodyTruncatePrefixChars ++ ofText "..."
    else body
  frm ++ ofText " -> " ++ rcpt ++ ofText ": " ++ body ++ tail R row

def formatAlert (R : Runtime) (row : Row) (alertName : String) : PyStr :=
  let sev := orText row.alertSeverity "?"
  let fp := orText row.alertFingerprint "?"
  ofText alertName ++ ofText " [" ++ sev ++ ofText "] (fingerprint=" ++ fp ++ ofText ")" ++
    tail R row

/-- What `value.get` needs of its receiver. -/
def asDict : Value → Except PyExc (List (PyStr × Value))
  | .obj pairs => .ok pairs
  | _ => .error .attributeError

/-- `d.get(key) or default`. -/
def getOr (pairs : List (PyStr × Value)) (key : String) (default : Value) : Value :=
  match lookup key pairs with
  | some value => if value.truthy then value else default
  | none => default

/-- `str(value)`: a string is itself, anything else that is truthy prints as its `repr`. -/
def pyStr (R : Runtime) : Value → Except PyExc PyStr
  | .str s => .ok s
  | .int n => .ok (ofText (toString n))
  | .bool b => .ok (ofText (if b then "True" else "False"))
  | .null => .ok (ofText "None")
  | value => R.repr value

def jobBranch (R : Runtime) (row : Row) (payload : Value) : Except PyExc PyStr := do
  let job := getOr (← asDict payload) "workflow_job" (.obj [])
  match row.headBranch with
  | none | some "" => do pyStr R (getOr (← asDict job) "head_branch" (.str (ofText "?")))
  | some branch => .ok (ofText branch)

def formatWorkflowJob (R : Runtime) (row : Row) (payload : Value) : Except PyExc PyStr := do
  let branch ← jobBranch R row payload
  let jname := orText row.jobName "?"
  let status := orText row.status "?"
  let conc := orText row.conclusion "pending"
  return branch ++ ofText " job '" ++ jname ++ ofText "' (job_id=" ++ intText row.jobId ++
    ofText ", run=" ++ intText row.parentRunId ++ ofText ") -- " ++ status ++ ofText "/" ++
    conc ++ tail R row

def runTitle (run : List (PyStr × Value)) : Except PyExc PyStr := do
  let raw ← match lookup "display_title" run with
    | some title =>
      if title.truthy then pure title
      else commitMessage run
    | none => commitMessage run
  match raw with
  | .str s => return firstLine s
  | _ => .error .attributeError
where
  commitMessage (run : List (PyStr × Value)) : Except PyExc Value := do
    let commit ← asDict ((lookup "head_commit" run).getD (.obj []))
    return getOr commit "message" (.str [])

/-- The event and the title of a workflow run, as its summary prints them. -/
def runTexts (R : Runtime) (payload : Value) : Except PyExc (PyStr × PyStr) := do
  let run ← asDict (getOr (← asDict payload) "workflow_run" (.obj []))
  let event := getOr run "event" (.str (ofText "?"))
  let title ← runTitle run
  return (← pyStr R event, title)

def formatWorkflowRun (R : Runtime) (row : Row) (payload : Value) : Except PyExc PyStr := do
  let (event, title) ← runTexts R payload
  let branch := orText row.headBranch "?"
  let wf := orText row.workflowName "?"
  let conc := orText row.conclusion "pending"
  let status := orText row.status "?"
  return branch ++ ofText " " ++ wf ++ ofText " run " ++ intText row.runId ++ ofText " (" ++
    event ++ (if title ≠ [] then ofText ", " ++ title else []) ++ ofText ") -- " ++ status ++
    ofText "/" ++ conc ++ tail R row

/-- `json.loads(payload_json or "{}")`, with `{}` in place of text that is not JSON. -/
def decodePayload (R : Runtime) (row : Row) : Except PyExc Value :=
  match loads R.decodeDepth (if row.payloadJson = "" then "{}" else row.payloadJson) with
  | .error .jsonDecodeError => .ok (.obj [])
  | result => result

def formatText (R : Runtime) (row : Row) : Except PyExc PyStr := do
  let payload ← decodePayload R row
  if row.eventType = "agent_message" ∨ row.msgBody.isSome then
    return formatAgentMessage R row
  match row.alertName with
  | some alertName => return formatAlert R row alertName
  | none =>
    if row.eventType = "workflow_job" then formatWorkflowJob R row payload
    else formatWorkflowRun R row payload

section Scalars

@[simp] theorem scalar_orText (s : Option String) (default : String) :
    Scalar (orText s default) := by
  unfold orText
  split <;> exact scalar_ofText _

@[simp] theorem scalar_intText (n : Option SqlInt) : Scalar (intText n) := by
  cases n <;> exact scalar_ofText _

@[simp] theorem scalar_tail (R : Runtime) (row : Row) : Scalar (tail R row) := by
  simp [tail, iso]

theorem scalar_formatAgentMessage (R : Runtime) (row : Row) :
    Scalar (formatAgentMessage R row) := by
  have hbody := (scalar_orText row.msgBody "").words
  simp only [formatAgentMessage, scalar_append, scalar_orText, scalar_ofText, scalar_tail,
    and_true, true_and]
  split
  · exact scalar_append.mpr ⟨hbody.sublist (List.take_sublist _ _), scalar_ofText _⟩
  · exact hbody

theorem scalar_formatAlert (R : Runtime) (row : Row) (alertName : String) :
    Scalar (formatAlert R row alertName) := by
  simp [formatAlert]

end Scalars

end Waitbus.Summary
