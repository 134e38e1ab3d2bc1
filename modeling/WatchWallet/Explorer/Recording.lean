import WatchWallet.Explorer.Client

/-!
# Explorer — Recording

Replies that are known beforehand.  What is done with a recording is a function of it; the first
request that it has no reply to is kept, so that whoever runs the recording can find the reply and
run it again.
-/

namespace WatchWallet

/-- The reply in a line: the status, a blank and the body.  Any other line says that there was no
connection. -/
def Reply.ofLine? (line : String) : Option Reply :=
  let cs := line.toList
  let (digits, rest) := (cs.takeWhile Text.isDigit, cs.dropWhile Text.isDigit)
  match rest with
  | ' ' :: body =>
    if digits.length = 3 then some ⟨Text.value digits, some (String.ofList body).toUTF8.toList⟩
    else none
  | _ => none

/-- Replies to requests, in the order of the requests. -/
structure Recording where
  replies : List (Option Reply)
  /-- The first request without a reply. -/
  missing : Option String

namespace Recording

/-- A recording of which nothing is used. -/
def ofReplies (replies : List (Option Reply)) : Recording := ⟨replies, none⟩

/-- Sends a request to a recording.  After the first request without a reply there is no
connection any more. -/
def transport : Transport Recording := fun address r =>
  match r.missing, r.replies with
  | some _, _ => (none, r)
  | none, reply? :: rest => (reply?, { r with replies := rest })
  | none, [] => (none, { r with missing := some address })

end Recording
end WatchWallet
