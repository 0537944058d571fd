import Hnw.Service.Destination
import Hnw.Theory.Transition

/-!
# The answers about a resource

`Service::download` asks about the resource before it fetches it. The status callback of a task
whose size is not known sends the next question where the answer is a redirect, and the callback of
that one does so again. Nothing counts the redirects.
-/

namespace Hnw.Service

open Hnw.Http Hnw.Util Hnw.Util.UnorderedMultimap Hnw.Theory

/-- A download, up to the requests of its transfer. -/
structure Redirecting where
  /-- The task whose status callback waits for an answer. -/
  waiting : Option DownloadTask
  /-- The requests that were sent, in order. -/
  sent : List SentRequest

/-- What happens to the question that waits. -/
inductive RedirectLabel (σ : Type) where
  /-- The head of an answer arrives. -/
  | answer (response : Response σ)
  /-- The connection raises an error. -/
  | fails

/-- The status callback: its return value is not looked at where it goes on with `download(task)`.
Where nothing is sent, no answer comes. -/
def Redirecting.follow (s : Redirecting) : Outcome → Redirecting
  | .redirect moved =>
    -- a task whose size is known goes on with its transfer, which has another callback
    { waiting := if moved.total.total = 0 ∧ (firstRequest moved).isSome then some moved else none
      sent := s.sent ++ (firstRequest moved).toList }
  | .tasks subs => { waiting := none, sent := s.sent ++ subs.filterMap firstRequest }
  | .error _ | .finished | .fault => { s with waiting := none }

variable {σ : Type} [UnorderedMultimap σ]

/-- One step. -/
def Redirecting.Step (s : Redirecting) : RedirectLabel σ → Redirecting → Prop
  | .answer response, next =>
    ∃ task request host status, s.waiting = some task ∧
      statusRequest task.url = some (request, host) ∧
      answeredStatus host response = some status ∧ next = s.follow (onStatus task status)
  | .fails, next => s.waiting.isSome ∧ next = { s with waiting := none }

/-- `download(task, true)`, which asks about the resource first, and the answers. -/
def redirecting (task : DownloadTask) : System Redirecting (RedirectLabel σ) where
  init s := ∃ first host, statusRequest task.url = some (first, host) ∧ s = ⟨some task, [first]⟩
  step s label next := s.Step label next

end Hnw.Service
