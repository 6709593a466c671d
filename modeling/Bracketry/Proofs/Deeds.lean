import Bracketry.Proofs.Asking
import Bracketry.Proofs.Sessions

/-
  What is done with a session.

  Besides the steps of a session, its document is changed
  without notice, lines are announced that need not be there,
  and questions are asked.  What may be done, and when, is
  told apart by predicates on such deeds.

  Key definitions include:
    * `Session.Deed`
    * `Session.perform`, `Session.performAll`
    * `Document.behind`, `Document.behindAll`
-/

------------------------------------------------------------
-- Deeds
------------------------------------------------------------

namespace Bracketry

namespace Session

/- Whatever can be done with a session. -/
inductive Deed where
  | step (step : Step)
  /- The document is changed and the index not told. -/
  | silent (start stop : Position) (text : List Char)
  /- Lines are announced, whatever their number. -/
  | notice (changed : List LineSpan)
  | ask (query : Query)

/- Tell the index of lines whose classification changed. -/
def queueLines
    (session : Session)
    (changed : List LineSpan) :
    Checked Session := do
  let index ← session.index.queueLines changed
  return { session with index := index }

/- Do something. -/
def perform
    (session : Session) :
    Deed → Checked Session
  | .step step => session.step step
  | .silent start stop text => session.replace start stop text
  | .notice changed => session.queueLines changed
  | .ask query => do
      let (_, session) ← session.ask query
      return session

/- Do one thing after the other. -/
def performAll
    (session : Session)
    (deeds : List Deed) :
    Checked Session :=
  deeds.foldlM perform session

namespace Deed

/- The index is told of a change, by an edit or by lines. -/
def isTold : Deed → Bool
  | .step (.edit _ _ _) => true
  | .notice _ => true
  | _ => false

/- The document is changed and the index is not told. -/
def isSilent : Deed → Bool
  | .silent _ _ _ => true
  | _ => false

end Deed

end Session

namespace Document

/- The document behind a deed that has a result. -/
def behind
    (document : Document) :
    Session.Deed → Document
  | .step step => document.after step
  | .silent start stop text =>
      document.after (.edit start stop text)
  | _ => document

/- The document behind several deeds. -/
def behindAll
    (document : Document)
    (deeds : List Session.Deed) :
    Document :=
  deeds.foldl behind document

end Document

end Bracketry
