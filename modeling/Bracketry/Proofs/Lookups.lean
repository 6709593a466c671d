import Bracketry.Lookup

/-
  A superseded lookup never wins.

  A lookup tells an outdated request from the generation on
  its ticket.  What happened to a lookup is told here without
  generations: requests are handled in the order in which
  they were taken, and one of them is superseded if another
  one of its kind waits behind it.  A lookup follows this
  history, whatever happens in whatever order.

  Key definitions include:
    * `Answers`, `Lookup.work`
    * `Lookup.Act`, `Lookup.run`
    * `History`
    * `Lookup.Follows`

  Main declarations:
    * `Lookup.exists_run_of_runAll`
    * `Lookup.AreDue.isSuperseded_eq`
    * `Lookup.Agrees.act`
    * `Lookup.run_follows`
-/

------------------------------------------------------------
-- Answers
------------------------------------------------------------

namespace Bracketry

/- Both requests ask for the same kind of result. -/
def Request.isLike : Request → Request → Bool
  | .matched _, .matched _ => true
  | .range _ _, .range _ _ => true
  | _, _ => false

/- Both notices are about the same kind of result. -/
def Notice.isLike : Notice → Notice → Bool
  | .matched _, .matched _ => true
  | .pairs _, .pairs _ => true
  | _, _ => false

theorem Notice.isLike_comm
    (first second : Notice) :
    first.isLike second = second.isLike first := by
  cases first <;> cases second <;> rfl

/- How a computation of each kind ends. -/
structure Answers where
  matched : Outcome (Option PairedBracket)
  range : Outcome (List PairedBracket)

namespace Answers

/- The result for a request, unless there is none. -/
def notice?
    (answers : Answers) :
    Request → Option Notice
  | .matched _ =>
      match answers.matched with
      | .done pair => some (.matched pair)
      | _ => none
  | .range _ _ =>
      match answers.range with
      | .done pairs => some (.pairs pairs)
      | _ => none

/- The computer that gives the answers. -/
def computer
    (answers : Answers) :
    Computer Unit where
  matched state _ := .ok (answers.matched, state)
  range state _ _ := .ok (answers.range, state)

end Answers

namespace Lookup

/- The last result of the kind of a notice. -/
def Keeps
    (lookup : Lookup) :
    Notice → Prop
  | .matched pair => lookup.lastMatched = pair
  | .pairs pairs => lookup.lastPairs = pairs

/- Keep a result and tell the receiver of it. -/
def take
    (lookup : Lookup)
    (notice : Notice) :
    Lookup :=
  match notice with
  | .matched pair =>
      { lookup with lastMatched := pair }.tell notice
  | .pairs pairs =>
      { lookup with lastPairs := pairs }.tell notice

variable {lookup : Lookup} {notice other : Notice}

/- Telling a receiver changes the log alone. -/
theorem tell_eq
    (lookup : Lookup)
    (notice : Notice) :
    lookup.tell notice =
      { lookup with log := (lookup.tell notice).log } := by
  unfold tell
  split <;> rfl

/- Taking a result changes the log and what is kept. -/
theorem take_eq
    (lookup : Lookup)
    (notice : Notice) :
    lookup.take notice =
      { lookup with
        lastMatched := (lookup.take notice).lastMatched
        lastPairs := (lookup.take notice).lastPairs
        log := (lookup.take notice).log } := by
  cases notice <;>
  · simp only [take]
    rw [tell_eq]

theorem keeps_take : (lookup.take notice).Keeps notice := by
  cases notice <;>
  · simp only [take, Keeps]
    rw [tell_eq]

/- A result of one kind leaves that of the other kind. -/
theorem Keeps.take
    (h : lookup.Keeps other)
    (hKind : other.isLike notice = false) :
    (lookup.take notice).Keeps other := by
  match notice, other with
  | .matched _, .pairs pairs =>
      simp only [Lookup.take, Keeps] at h ⊢
      rw [tell_eq, h]
  | .pairs _, .matched pair =>
      simp only [Lookup.take, Keeps] at h ⊢
      rw [tell_eq, h]
  | .matched _, .matched _ => cases hKind
  | .pairs _, .pairs _ => cases hKind

/- One request is handled by the answer to it alone. -/
theorem handle_answers
    (answers : Answers)
    (lookup : Lookup)
    (ticket : Ticket) :
    handle answers.computer lookup () ticket =
      .ok
        (if lookup.isSuperseded ticket then lookup
          else
            match answers.notice? ticket.request with
            | some notice => lookup.take notice
            | none => lookup,
          ()) := by
  unfold handle
  split
  · rfl
  · rcases ticket with ⟨request, generation⟩
    rcases answers with ⟨matched, range⟩
    cases request with
    | matched offset => cases matched <;> rfl
    | range left right =>
        cases range with
        | done pairs =>
            simp only [Answers.computer, Answers.notice?,
              handleRange, take, tell]
            split <;> rfl
        | cancelled => rfl
        | failed => rfl

end Lookup

end Bracketry

------------------------------------------------------------
-- Acts
------------------------------------------------------------

namespace Bracketry

namespace Lookup

/- Handle the request that waits longest, if there is one. -/
def work
    (lookup : Lookup)
    (answers : Answers) :
    Lookup :=
  match lookup.queue with
  | [] => lookup
  | ticket :: rest =>
      match
        handle answers.computer { lookup with queue := rest }
          () ticket with
      | .ok (lookup, _) => lookup
      | .error _ => lookup

/- What happens to a lookup. -/
inductive Act where
  /- A request is made. -/
  | submit (request : Request)
  /- The oldest request is handled. -/
  | work (answers : Answers)
  /- A receiver is attached, or the present one detached. -/
  | attach (receiver : Option String)
  | shutdown

/- The state behind one act. -/
def act
    (lookup : Lookup) :
    Act → Lookup
  | .submit request =>
      match lookup.submit request with
      | .ok next => next
      | .error _ => lookup
  | .work answers => lookup.work answers
  | .attach receiver => lookup.setReceiver receiver
  | .shutdown => lookup.shutdown

/- The state behind many acts. -/
def run
    (lookup : Lookup)
    (acts : List Act) :
    Lookup :=
  acts.foldl act lookup

variable {lookup : Lookup} {ticket : Ticket}
variable {rest : List Ticket}

theorem work_of_queue
    (hQueue : lookup.queue = ticket :: rest)
    (answers : Answers) :
    lookup.work answers =
      if lookup.isSuperseded ticket then
        { lookup with queue := rest }
      else
        match answers.notice? ticket.request with
        | some notice => { lookup with queue := rest }.take notice
        | none => { lookup with queue := rest } := by
  unfold work
  rw [hQueue]
  simp only [handle_answers]
  rfl

variable {σ : Type} {computer : Computer σ}
variable {next : Lookup} {state after : σ}

/- What any computer does can be put as two answers. -/
theorem exists_answers
    (h :
      handle computer lookup state ticket =
        .ok (next, after)) :
    ∃ answers : Answers,
      handle answers.computer lookup () ticket =
        .ok (next, ()) := by
  rcases ticket with ⟨request, generation⟩
  unfold handle at h ⊢
  by_cases hSuperseded :
      lookup.isSuperseded ⟨request, generation⟩ = true
  · rw [if_pos hSuperseded] at h
    cases h
    exact ⟨⟨.failed, .failed⟩, if_pos hSuperseded⟩
  · rw [if_neg hSuperseded] at h
    cases request with
    | matched offset =>
        rcases Checked.bind_eq_ok_iff.mp h with
          ⟨⟨outcome, behind⟩, _, hNext⟩
        cases hNext
        exact ⟨⟨outcome, .failed⟩, if_neg hSuperseded⟩
    | range left right =>
        rcases Checked.bind_eq_ok_iff.mp h with
          ⟨⟨outcome, behind⟩, _, hNext⟩
        cases hNext
        exact ⟨⟨.failed, outcome⟩, if_neg hSuperseded⟩

/- So it does what work does on the oldest request. -/
theorem exists_work
    (h :
      handle computer lookup state ticket = .ok (next, after))
    (rest : List Ticket) :
    next.queue = lookup.queue ∧
      ∃ answers,
        { lookup with queue := ticket :: rest }.work answers =
          { next with queue := rest } := by
  rcases exists_answers h with ⟨answers, hAnswers⟩
  rw [handle_answers] at hAnswers
  rcases congrArg Prod.fst (Except.ok.inj hAnswers) with rfl
  have hWork :
      { lookup with queue := ticket :: rest }.work answers =
        _ :=
    work_of_queue rfl answers
  refine ⟨?_, answers, hWork.trans ?_⟩
  · split
    · rfl
    · split
      · rw [take_eq]
      · rfl
  · by_cases hSuperseded : lookup.isSuperseded ticket = true
    · rw [if_pos hSuperseded]
      exact if_pos hSuperseded
    · rw [if_neg hSuperseded]
      refine (if_neg hSuperseded).trans ?_
      cases hNotice : answers.notice? ticket.request with
      | none => rfl
      | some notice =>
        cases notice <;>
        · simp only [take, tell]
          cases lookup.receiver <;> rfl

/- Handling all requests is working as often as they are. -/
theorem exists_run_of_handleAll
    {tickets : List Ticket}
    (h :
      handleAll computer lookup state tickets =
        .ok (next, after)) :
    next.queue = lookup.queue ∧
      ∃ answers : List Answers,
        answers.length = tickets.length ∧
          { lookup with queue := tickets }.run
              (answers.map .work) =
            { next with queue := [] } := by
  induction tickets generalizing lookup state with
  | nil =>
      cases h
      exact ⟨rfl, [], rfl, rfl⟩
  | cons ticket rest ih =>
      rcases Checked.bind_eq_ok_iff.mp h with
        ⟨⟨middle, behind⟩, hHandle, hRest⟩
      rcases exists_work hHandle rest with
        ⟨hQueue, first, hFirst⟩
      rcases ih hRest with ⟨hKept, answers, hLength, hRun⟩
      refine ⟨hKept.trans hQueue, first :: answers,
        by simp [hLength], ?_⟩
      simp only [List.map_cons, run, List.foldl_cons, act]
      rw [hFirst]
      exact hRun

/- The worker's loop does nothing but work. -/
theorem exists_run_of_runAll
    (h :
      runAll computer lookup state = .ok (next, after)) :
    ∃ answers : List Answers,
      answers.length = lookup.queue.length ∧
        lookup.run (answers.map .work) = next := by
  rcases exists_run_of_handleAll h with
    ⟨hQueue, answers, hLength, hRun⟩
  refine ⟨answers, hLength, hRun.trans ?_⟩
  cases next
  cases hQueue
  rfl

end Lookup

end Bracketry

------------------------------------------------------------
-- Histories
------------------------------------------------------------

namespace Bracketry

/-
  What happened to the requests.  They are numbered in the
  order in which they were taken, and `answered` holds the
  results with the numbers of their requests.
-/
structure History where
  taken : List Request
  handled : Nat
  isStopped : Bool
  answered : List (Nat × Notice)

namespace History

/- Nothing was asked yet. -/
def start : History :=
  { taken := []
    handled := 0
    isStopped := false
    answered := [] }

/- The requests that were not handled yet. -/
def waiting
    (history : History) :
    List Request :=
  history.taken.drop history.handled

/-
  Requests are taken until the shutdown, which leaves none
  waiting.  One that is handled has a result if no other of
  its kind waits behind it and its computation gave one.
-/
def act
    (history : History) :
    Lookup.Act → History
  | .submit request =>
      if history.isStopped then history
      else { history with taken := history.taken ++ [request] }
  | .work answers =>
      match history.waiting with
      | [] => history
      | request :: newer =>
          let next :=
            { history with handled := history.handled + 1 }
          if newer.any request.isLike then next
          else
            match answers.notice? request with
            | some notice =>
                { next with
                  answered :=
                    history.answered ++
                      [(history.handled, notice)] }
            | none => next
  | .attach _ => history
  | .shutdown =>
      { history with
        handled := history.taken.length
        isStopped := true }

/- The history behind many acts. -/
def run
    (history : History)
    (acts : List Lookup.Act) :
    History :=
  acts.foldl act history

variable {history : History}

/- A shutdown is not undone. -/
theorem isStopped_act
    (h : history.isStopped = true)
    (act : Lookup.Act) :
    (history.act act).isStopped = true := by
  cases act with
  | submit request =>
      simp only [History.act, h, if_true]
  | work answers =>
      simp only [History.act]
      cases history.waiting with
      | nil => exact h
      | cons request newer =>
          dsimp only
          split
          · exact h
          · cases answers.notice? request with
            | none => exact h
            | some notice => exact h
  | attach receiver => exact h
  | shutdown => rfl

theorem isStopped_run
    (h : history.isStopped = true)
    (acts : List Lookup.Act) :
    (history.run acts).isStopped = true := by
  induction acts generalizing history with
  | nil => exact h
  | cons act acts ih => exact ih (isStopped_act h act)

/- The result of the newest request of its kind with one. -/
def IsNewest
    (history : History)
    (notice : Notice) :
    Prop :=
  ∃ number,
    (number, notice) ∈ history.answered ∧
      ∀ entry ∈ history.answered,
        entry.2.isLike notice = true → entry.1 ≤ number

/- No request of a kind has a result. -/
def HasNone
    (history : History)
    (notice : Notice) :
    Prop :=
  ∀ entry ∈ history.answered,
    entry.2.isLike notice = false

end History

namespace Lookup

/-
  What a lookup does and keeps, told from its history alone.
-/
structure Follows
    (lookup : Lookup)
    (history : History) :
    Prop where
  /- The queue is what waits. -/
  waiting :
    lookup.queue.map Ticket.request = history.waiting
  /- A superseded request changes the queue alone. -/
  superseded :
    ∀ answers request newer,
      history.waiting = request :: newer →
      newer.any request.isLike = true →
      lookup.work answers =
        { lookup with queue := lookup.queue.tail }
  /- So does one whose computation has no result. -/
  unanswered :
    ∀ answers request newer,
      history.waiting = request :: newer →
      answers.notice? request = none →
      lookup.work answers =
        { lookup with queue := lookup.queue.tail }
  /- Each other result is kept and told. -/
  answered :
    ∀ answers request newer notice,
      history.waiting = request :: newer →
      newer.any request.isLike = false →
      answers.notice? request = some notice →
      lookup.work answers =
        { lookup with queue := lookup.queue.tail }.take notice
  /- The result of the newest request of a kind is kept. -/
  newest :
    history.isStopped = false →
    ∀ notice, history.IsNewest notice → lookup.Keeps notice
  /- Nothing is kept of a kind without a result. -/
  blank :
    ∀ notice ∈ [Notice.matched none, .pairs []],
      history.HasNone notice → lookup.Keeps notice
  /- A new receiver is told first what is kept. -/
  attached :
    ∀ receiver,
      (lookup.setReceiver (some receiver)).log =
        lookup.log ++
          [⟨receiver, .matched lookup.lastMatched⟩,
            ⟨receiver, .pairs lookup.lastPairs⟩]
  /- Detaching a receiver tells nobody anything. -/
  detached :
    lookup.setReceiver none = { lookup with receiver := none }
  /- Until the shutdown, each request is taken. -/
  isOpen :
    history.isStopped = false →
    ∀ request, ∃ next, lookup.submit request = .ok next
  /- Behind it none is, and nothing is kept ever again. -/
  stopped :
    history.isStopped = true →
    ∀ later request,
      (lookup.run later).submit request = .error .stopped ∧
        (lookup.run later).lastMatched = none ∧
        (lookup.run later).lastPairs = []

end Lookup

end Bracketry

------------------------------------------------------------
-- Tickets
------------------------------------------------------------

namespace Bracketry

namespace Lookup

/-
  Each ticket lags behind the generation of its kind by the
  tickets of that kind behind it.
-/
def AreDue
    (lookup : Lookup) :
    List Ticket → Prop
  | [] => True
  | ticket :: rest =>
      lookup.generationOf ticket.request =
          ticket.generation +
            (rest.map Ticket.request).countP
              ticket.request.isLike ∧
        lookup.AreDue rest

variable {lookup next : Lookup} {ticket : Ticket}
variable {rest tickets : List Ticket}

/- A ticket is outdated if one of its kind waits behind it. -/
theorem AreDue.isSuperseded_eq
    (h : lookup.AreDue (ticket :: rest)) :
    lookup.isSuperseded ticket =
      (rest.map Ticket.request).any ticket.request.isLike := by
  rw [isSuperseded, h.1, Bool.eq_iff_iff, bne_iff_ne, ne_eq,
    Nat.add_eq_left, ← ne_eq, ← Nat.pos_iff_ne_zero,
    List.countP_pos_iff, List.any_eq_true]

/- Tickets stay due while no generation is raised. -/
theorem AreDue.of_generations
    (h : lookup.AreDue tickets)
    (hMatched :
      next.matchedGeneration = lookup.matchedGeneration)
    (hRange : next.rangeGeneration = lookup.rangeGeneration) :
    next.AreDue tickets := by
  have hGeneration :
      ∀ request,
        next.generationOf request =
          lookup.generationOf request := by
    intro request
    cases request with
    | matched _ => exact hMatched
    | range _ _ => exact hRange
  induction tickets with
  | nil => trivial
  | cons ticket rest ih =>
      exact ⟨(hGeneration _).trans h.1, ih h.2⟩

theorem generationOf_raise
    (lookup : Lookup)
    (request newer : Request) :
    (lookup.raise newer).generationOf request =
      lookup.generationOf request +
        [newer].countP request.isLike := by
  cases request <;> cases newer <;> rfl

/- A new ticket has the new generation, older ones lag. -/
theorem AreDue.submit
    (h : lookup.AreDue tickets)
    (request : Request) :
    (lookup.raise request).AreDue
      (tickets ++
        [⟨request,
          (lookup.raise request).generationOf request⟩]) := by
  induction tickets with
  | nil => exact ⟨by simp, trivial⟩
  | cons ticket rest ih =>
      refine ⟨?_, ih h.2⟩
      rw [generationOf_raise, h.1, List.append_eq,
        List.map_append, List.countP_append, Nat.add_assoc]
      rfl

end Lookup

end Bracketry

------------------------------------------------------------
-- Agreement
------------------------------------------------------------

namespace Bracketry

namespace Lookup

/- A lookup and a history that came from the same acts. -/
structure Agrees
    (lookup : Lookup)
    (history : History) :
    Prop where
  waiting :
    lookup.queue.map Ticket.request = history.waiting
  due : lookup.AreDue lookup.queue
  isStopped : lookup.isStopped = history.isStopped
  shut :
    history.isStopped = true →
    history.waiting = [] ∧
      lookup.lastMatched = none ∧ lookup.lastPairs = []
  newest :
    history.isStopped = false →
    ∀ notice, history.IsNewest notice → lookup.Keeps notice
  blank :
    ∀ notice ∈ [Notice.matched none, .pairs []],
      history.HasNone notice → lookup.Keeps notice
  passed :
    ∀ entry ∈ history.answered, entry.1 < history.handled
  inRange : history.handled ≤ history.taken.length

variable {lookup : Lookup} {history : History}
variable {request : Request} {newer : List Request}
variable {notice : Notice}

theorem agrees_start : start.Agrees .start where
  waiting := rfl
  due := trivial
  isStopped := rfl
  shut := nofun
  newest := by
    rintro _ notice ⟨number, hMem, _⟩
    cases hMem
  blank := by
    intro notice hMem _
    have hOne :
        notice = .matched none ∨ notice = .pairs [] := by
      simpa using hMem
    rcases hOne with rfl | rfl <;> rfl
  passed := nofun
  inRange := Nat.le_refl 0

namespace Agrees

/- The ticket of the request that waits longest. -/
theorem exists_ticket
    (h : lookup.Agrees history)
    (hWaiting : history.waiting = request :: newer) :
    ∃ ticket rest,
      lookup.queue = ticket :: rest ∧
        ticket.request = request ∧
        rest.map Ticket.request = newer ∧
        lookup.isSuperseded ticket =
          newer.any request.isLike := by
  rcases List.map_eq_cons_iff.mp (h.waiting.trans hWaiting) with
    ⟨ticket, rest, hQueue, hTicket, hRest⟩
  have hDue := h.due
  rw [hQueue] at hDue
  have hSuperseded := hDue.isSuperseded_eq
  rw [hTicket, hRest] at hSuperseded
  exact ⟨ticket, rest, hQueue, hTicket, hRest, hSuperseded⟩

/- What work does is told by the history. -/
theorem work_eq
    (h : lookup.Agrees history)
    (hWaiting : history.waiting = request :: newer)
    (answers : Answers) :
    lookup.work answers =
      if newer.any request.isLike then
        { lookup with queue := lookup.queue.tail }
      else
        match answers.notice? request with
        | some notice =>
            { lookup with queue := lookup.queue.tail }.take
              notice
        | none =>
            { lookup with queue := lookup.queue.tail } := by
  rcases h.exists_ticket hWaiting with
    ⟨ticket, rest, hQueue, rfl, _, hSuperseded⟩
  rw [work_of_queue hQueue, hSuperseded, hQueue]
  rfl

/- A request is handled without a result. -/
theorem pass
    (h : lookup.Agrees history)
    (hWaiting : history.waiting = request :: newer) :
    { lookup with queue := lookup.queue.tail }.Agrees
      { history with handled := history.handled + 1 } where
  waiting := by
    dsimp only
    rw [List.map_tail, h.waiting, History.waiting,
      History.waiting, List.tail_drop]
  due := by
    rcases h.exists_ticket hWaiting with
      ⟨ticket, rest, hQueue, _⟩
    have hDue := h.due
    rw [hQueue] at hDue ⊢
    exact hDue.2.of_generations rfl rfl
  isStopped := h.isStopped
  shut hStopped := by
    rw [(h.shut hStopped).1] at hWaiting
    cases hWaiting
  newest := h.newest
  blank := h.blank
  passed entry hEntry :=
    Nat.lt_succ_of_lt (h.passed entry hEntry)
  inRange := by
    have hLength := congrArg List.length hWaiting
    simp only [History.waiting, List.length_drop,
      List.length_cons] at hLength
    dsimp only
    omega

/- The result of the request handled last is taken. -/
theorem answer
    {number : Nat}
    (h : lookup.Agrees history)
    (hLast : history.handled = number + 1)
    (hBefore : ∀ entry ∈ history.answered, entry.1 < number)
    (hStopped : history.isStopped = false)
    (notice : Notice) :
    (lookup.take notice).Agrees
      { history with
        answered := history.answered ++ [(number, notice)] } where
  waiting := by
    rw [take_eq]
    exact h.waiting
  due := by
    rw [take_eq]
    exact h.due.of_generations rfl rfl
  isStopped := by
    rw [take_eq]
    exact h.isStopped
  shut hTrue := by
    rw [hStopped] at hTrue
    cases hTrue
  newest := by
    rintro _ other ⟨top, hMem, hTop⟩
    rcases List.mem_append.mp hMem with hOld | hNew
    · cases hKind : notice.isLike other with
      | true =>
          -- An older entry of the kind is not the newest.
          have hLe := hTop (number, notice) (by simp) hKind
          have hLt := hBefore _ hOld
          omega
      | false =>
          have hNewest : history.IsNewest other :=
            ⟨top, hOld, fun entry hEntry =>
              hTop entry (List.mem_append_left _ hEntry)⟩
          exact (h.newest hStopped other hNewest).take
            (Notice.isLike_comm notice other ▸ hKind)
    · rcases Prod.mk.inj (List.mem_singleton.1 hNew) with
        ⟨rfl, rfl⟩
      exact keeps_take
  blank := by
    intro other hMem hNone
    have hKind : notice.isLike other = false :=
      hNone (number, notice) (by simp)
    have hOld : history.HasNone other := fun entry hEntry =>
      hNone entry (List.mem_append_left _ hEntry)
    exact (h.blank other hMem hOld).take
      (Notice.isLike_comm notice other ▸ hKind)
  passed entry hEntry := by
    dsimp only
    rcases List.mem_append.mp hEntry with hOld | hNew
    · exact h.passed entry hOld
    · rw [List.mem_singleton.1 hNew]
      omega
  inRange := h.inRange

end Agrees

end Lookup

end Bracketry

------------------------------------------------------------
-- Steps
------------------------------------------------------------

namespace Bracketry

namespace Lookup

variable {lookup : Lookup} {history : History}

theorem submit_eq
    (lookup : Lookup)
    (request : Request) :
    lookup.submit request =
      if lookup.isStopped then .error .stopped
      else
        .ok
          { lookup.raise request with
            queue :=
              lookup.queue ++
                [⟨request,
                  (lookup.raise request).generationOf
                    request⟩] } := by
  cases request <;> rfl

theorem setReceiver_eq
    (lookup : Lookup)
    (receiver : Option String) :
    lookup.setReceiver receiver =
      { lookup with
        receiver := receiver
        log := (lookup.setReceiver receiver).log } := by
  cases receiver <;> rfl

namespace Agrees

theorem submit
    (h : lookup.Agrees history)
    (request : Request) :
    (lookup.act (.submit request)).Agrees
      (history.act (.submit request)) := by
  simp only [Lookup.act, History.act, submit_eq]
  rw [h.isStopped]
  by_cases hStopped : history.isStopped = true
  · rw [if_pos hStopped, if_pos hStopped]
    exact h
  · rw [if_neg hStopped, if_neg hStopped]
    exact
      { waiting := by
          simp only [List.map_append, h.waiting,
            History.waiting,
            List.drop_append_of_le_length h.inRange]
          rfl
        due := (h.due.submit request).of_generations rfl rfl
        isStopped := by
          rw [← h.isStopped]
          cases request <;> rfl
        shut := fun hTrue => absurd hTrue hStopped
        newest := by
          cases request <;> exact h.newest
        blank := by
          cases request <;> exact h.blank
        passed := h.passed
        inRange := by
          have hLe := h.inRange
          simp only [List.length_append]
          omega }

theorem work
    (h : lookup.Agrees history)
    (answers : Answers) :
    (lookup.act (.work answers)).Agrees
      (history.act (.work answers)) := by
  simp only [Lookup.act, History.act]
  cases hWaiting : history.waiting with
  | nil =>
      have hQueue : lookup.queue = [] := by
        rw [← List.map_eq_nil_iff, h.waiting, hWaiting]
      simp only [Lookup.work, hQueue]
      exact h
  | cons request newer =>
      have hPass := h.pass hWaiting
      rw [h.work_eq hWaiting]
      dsimp only
      split
      · exact hPass
      · cases answers.notice? request with
        | none => exact hPass
        | some notice =>
            have hStopped : history.isStopped = false := by
              rw [← Bool.not_eq_true]
              intro hTrue
              rw [(h.shut hTrue).1] at hWaiting
              cases hWaiting
            exact hPass.answer rfl h.passed hStopped notice

theorem attach
    (h : lookup.Agrees history)
    (receiver : Option String) :
    (lookup.act (.attach receiver)).Agrees history := by
  simp only [Lookup.act]
  rw [setReceiver_eq]
  exact
    { waiting := h.waiting
      due := h.due.of_generations rfl rfl
      isStopped := h.isStopped
      shut := h.shut
      newest := h.newest
      blank := h.blank
      passed := h.passed
      inRange := h.inRange }

theorem shutdown
    (h : lookup.Agrees history) :
    (lookup.act .shutdown).Agrees
      (history.act .shutdown) := by
  simp only [Lookup.act, Lookup.shutdown, History.act]
  have hLe := h.inRange
  split
  · rename_i hStopped
    have hTrue : history.isStopped = true :=
      h.isStopped ▸ hStopped
    rcases h.shut hTrue with ⟨hWaiting, hMatched, hPairs⟩
    have hHandled : history.handled = history.taken.length := by
      have hLength := congrArg List.length hWaiting
      simp only [History.waiting, List.length_drop,
        List.length_nil] at hLength
      omega
    rw [← hTrue, ← hHandled]
    exact h
  · exact
      { waiting := by simp [History.waiting]
        due := trivial
        isStopped := rfl
        shut := fun _ => by simp [History.waiting]
        newest := nofun
        blank := by
          intro notice hMem _
          have hOne :
              notice = .matched none ∨ notice = .pairs [] := by
            simpa using hMem
          rcases hOne with rfl | rfl <;> rfl
        passed := fun entry hEntry =>
          Nat.lt_of_lt_of_le (h.passed entry hEntry) hLe
        inRange := Nat.le_refl _ }

theorem act
    (h : lookup.Agrees history)
    (act : Act) :
    (lookup.act act).Agrees (history.act act) := by
  cases act with
  | submit request => exact h.submit request
  | work answers => exact h.work answers
  | attach receiver => exact h.attach receiver
  | shutdown => exact h.shutdown

theorem run
    (h : lookup.Agrees history)
    (acts : List Act) :
    (lookup.run acts).Agrees (history.run acts) := by
  induction acts generalizing lookup history with
  | nil => exact h
  | cons act acts ih => exact ih (h.act act)

end Agrees

theorem Agrees.follows
    (h : lookup.Agrees history) :
    lookup.Follows history where
  waiting := h.waiting
  superseded answers request newer hWaiting hNewer := by
    rw [h.work_eq hWaiting, hNewer]
    rfl
  unanswered answers request newer hWaiting hNone := by
    rw [h.work_eq hWaiting, hNone]
    exact ite_self _
  answered answers request newer notice hWaiting hNewer
      hSome := by
    rw [h.work_eq hWaiting, hNewer, hSome]
    rfl
  newest := h.newest
  blank := h.blank
  attached receiver := by
    simp [setReceiver, tell]
  detached := rfl
  isOpen hOpen request := by
    rw [submit_eq, h.isStopped, hOpen]
    exact ⟨_, rfl⟩
  stopped hTrue later request := by
    have hLater := h.run later
    have hStopped := History.isStopped_run hTrue later
    refine ⟨?_, (hLater.shut hStopped).2⟩
    rw [submit_eq, hLater.isStopped, hStopped]
    rfl

/-
  Whatever happens in whatever order, a lookup does what its
  history tells.
-/
theorem run_follows
    (acts : List Act) :
    (start.run acts).Follows (History.start.run acts) :=
  (agrees_start.run acts).follows

end Lookup

end Bracketry
