import Remsim.CString
import Remsim.ModemStatus

/-! # Commands typed into the shell client (`user_shell.c`)

`stdin_fd_cb()` reads what there is on stdin into a buffer of 1024 octets, replaces every CR or LF
by a NUL and calls `handle_stdin_command()` with the place where this read began.  The buffer is
freed after a command, and the loop goes on in it: what it finds there is part of the input of the
model (`StdinRead.freed`), as is every result of `read()`.  A failed assertion, or a read that would
not fit into the buffer, ends the run without a state.

`linesOf` splits a stream into its lines.  `executes_iff`: the commands are the lines, whatever the
freed buffer holds, exactly when each line comes in a read of its own. -/

namespace Remsim.Shell

open CString

/-- CR or LF. -/
def isEol (c : UInt8) : Bool := c = 13 || c = 10

/-! ### The program -/

/-- An event that a command dispatches to `CLIENT_MAIN`. -/
inductive MdmEvent where
  | statusInd (pstatus : FrontendPhysStatus)
  | tpdu (buf : List UInt8)
deriving DecidableEq, Repr

/-- `struct stdin_state`: the octets in `rx_msg`, with a record of the calls of
`handle_stdin_command()` and of the events that they dispatched. -/
structure StdinState where
  rxMsg : Option (List UInt8)
  commands : List (List UInt8)
  events : List MdmEvent
deriving DecidableEq, Repr

/-- One result of `read()`, and what the loop reads from the buffer once it has been freed. -/
structure StdinRead where
  octets : List UInt8
  freed : ℕ → UInt8

/-- `tolower()` of an ASCII character. -/
def toLower (c : UInt8) : UInt8 := if 65 ≤ c ∧ c ≤ 90 then c + 32 else c

/-- The status that `RESET` reports. -/
def resetStatus : FrontendPhysStatus :=
  ⟨⟨.active, .inactive, .inactive, .active⟩, 0, 0, 0, 0, 0⟩

section program

-- `osmo_hexparse()` with a buffer of 1024 octets, and whether there is a client slot
variable (hexparse : List UInt8 → Option (List UInt8)) (clslot : Bool)

/-- What a command dispatches. -/
def commandEvents (cmd : List UInt8) : List MdmEvent :=
  if cmd.map toLower = (ascii "RESET").map toLower then [.statusInd resetStatus]
  else
    match hexparse cmd with
    | none => []
    | some buf => if clslot then [.tpdu buf] else []

/-- `handle_stdin_command()`, with `OSMO_ASSERT(ss->rx_msg)`. -/
def handleStdinCommand (ss : StdinState) (cmd : List UInt8) : Option StdinState :=
  if ss.rxMsg.isNone then none
  else some { ss with
    commands := ss.commands ++ [cmd]
    events := ss.events ++ commandEvents hexparse clslot cmd }

/-- `cur[i]`: the octet that was read, as long as the buffer has not been freed. -/
def StdinRead.cur (r : StdinRead) (ss : StdinState) (i : ℕ) : UInt8 :=
  if ss.rxMsg.isNone then r.freed i else r.octets.getD i 0

/-- The loop of `stdin_fd_cb()` from an index, with as many iterations as remain. -/
def stdinLoop (r : StdinRead) : ℕ → ℕ → StdinState → Option StdinState
  | 0, _, ss => some ss
  | n + 1, i, ss =>
      if isEol (r.cur ss i) then do
        let ss ← handleStdinCommand hexparse clslot ss (cstr (r.octets.take i))
        stdinLoop r n (i + 1) { ss with rxMsg := none }
      else stdinLoop r n (i + 1) ss

/-- `stdin_fd_cb()`; `msgb_put()` does not return when the buffer has no room. -/
def stdinFdCb (ss : StdinState) (r : StdinRead) : Option StdinState :=
  let rxMsg := ss.rxMsg.getD []
  if rxMsg.length + r.octets.length ≤ 1024 then
    stdinLoop hexparse clslot r r.octets.length 0 { ss with rxMsg := some (rxMsg ++ r.octets) }
  else none

/-- The reads of a run. -/
def stdinRun (ss : StdinState) (reads : List StdinRead) : Option StdinState :=
  reads.foldlM (stdinFdCb hexparse clslot) ss

end program

/-- `memset(&ss, 0, sizeof(ss))`. -/
def StdinState.start : StdinState := ⟨none, [], []⟩

/-! ### Lines -/

/-- The lines of a stream that are not empty; what follows the last CR or LF is not a line yet. -/
def linesOf (stream : List UInt8) : List (List UInt8) :=
  (stream.splitOnP isEol).dropLast.filter (· ≠ [])

/-- What `read()` can return when so many octets of the buffer are in use: something without a
NUL, and no more than there is room for. -/
def Readable : ℕ → List (List UInt8) → Prop
  | _, [] => True
  | used, c :: cs =>
      (c ≠ [] ∧ 0 ∉ c ∧ used + c.length ≤ 1024) ∧
        Readable (if c.any isEol then 0 else used + c.length) cs

/-- The shell executes the lines of the stream that these reads make up, whatever the freed buffer
holds. -/
def Executes (hexparse : List UInt8 → Option (List UInt8)) (clslot : Bool)
    (chunks : List (List UInt8)) : Prop :=
  ∀ reads : List StdinRead, reads.map StdinRead.octets = chunks →
    ∃ ss, stdinRun hexparse clslot .start reads = some ss ∧
      ss.commands = linesOf chunks.flatten

/-- A read that consists of one line with its end. -/
def IsTyped (c : List UInt8) : Prop :=
  ∃ body e, c = body ++ [e] ∧ isEol e = true ∧ body ≠ [] ∧ ∀ d ∈ body, isEol d = false

/-- Each line comes in a read of its own, and then there may be the beginning of another line. -/
def LineByLine (chunks : List (List UInt8)) : Prop :=
  ∃ lines rest, chunks = lines ++ rest ∧ (∀ c ∈ lines, IsTyped c) ∧
    ∀ c ∈ rest, ∀ d ∈ c, isEol d = false

example : linesOf (ascii "RESET\r\n\n00A4") = [ascii "RESET"] := by decide +kernel

/-! ### The lines of a stream -/

section lines

variable {body : List UInt8} {e : UInt8}

theorem eol_cases (c : List UInt8) :
    (∀ d ∈ c, isEol d = false) ∨
      ∃ body e rest, c = body ++ e :: rest ∧ isEol e = true ∧ ∀ d ∈ body, isEol d = false := by
  induction c with
  | nil => exact .inl fun d hd => absurd hd List.not_mem_nil
  | cons x c ih =>
      by_cases hx : isEol x = true
      · exact .inr ⟨[], x, c, rfl, hx, fun d hd => absurd hd List.not_mem_nil⟩
      · rw [Bool.not_eq_true] at hx
        rcases ih with hc | ⟨body, e, rest, rfl, he, hbody⟩
        · exact .inl (List.forall_mem_cons.mpr ⟨hx, hc⟩)
        · exact .inr ⟨x :: body, e, rest, rfl, he, List.forall_mem_cons.mpr ⟨hx, hbody⟩⟩

theorem linesOf_open {s : List UInt8} (h : ∀ d ∈ s, isEol d = false) : linesOf s = [] := by
  rw [linesOf, List.splitOnP_eq_singleton h]
  rfl

theorem linesOf_line (hbody : ∀ d ∈ body, isEol d = false) (he : isEol e = true)
    (s : List UInt8) :
    linesOf (body ++ e :: s) = (if body = [] then [] else [body]) ++ linesOf s := by
  rw [linesOf, List.splitOnP_append_cons_of_forall_mem hbody e he,
    List.dropLast_cons_of_ne_nil (List.splitOnP_ne_nil isEol s)]
  by_cases hnil : body = []
  · rw [if_pos hnil, List.filter_cons_of_neg (by simp [hnil])]
    rfl
  · rw [if_neg hnil, List.filter_cons_of_pos (by simp [hnil])]
    rfl

theorem ne_nil_of_mem_linesOf {s l : List UInt8} (h : l ∈ linesOf s) : l ≠ [] :=
  of_decide_eq_true (List.mem_filter.mp h).2

theorem first_command {p s : List UInt8} {X : List (List UInt8)}
    (hp : ∀ d ∈ p ++ body, isEol d = false) (he : isEol e = true)
    (h : body :: X = linesOf (p ++ body ++ e :: s)) : p = [] ∧ body ≠ [] := by
  rw [linesOf_line hp he] at h
  by_cases hnil : p ++ body = []
  · rw [if_pos hnil, List.nil_append] at h
    have hmem : body ∈ linesOf s := h ▸ List.mem_cons_self
    exact absurd (List.append_eq_nil_iff.mp hnil).2 (ne_nil_of_mem_linesOf hmem)
  · rw [if_neg hnil, List.singleton_append] at h
    have hp : p = [] := List.append_left_eq_self.mp (List.cons.inj h).1.symm
    rw [hp, List.nil_append] at hnil
    exact ⟨hp, hnil⟩

end lines

/-! ### Reads that are lines -/

section typed

variable {c : List UInt8} {cs : List (List UInt8)}

theorem IsTyped.not_open (h : IsTyped c) : ¬∀ d ∈ c, isEol d = false := by
  intro hopen
  obtain ⟨body, e, rfl, he, -, -⟩ := h
  have := hopen e (by simp)
  rw [he] at this
  cases this

theorem isTyped_iff {body rest : List UInt8} {e : UInt8} (hbody : ∀ d ∈ body, isEol d = false)
    (he : isEol e = true) : IsTyped (body ++ e :: rest) ↔ rest = [] ∧ body ≠ [] := by
  constructor
  · rintro ⟨body', e', heq, he', hne, hbody'⟩
    rw [List.append_eq_append_iff] at heq
    rcases heq with ⟨as, hb', hrest⟩ | ⟨bs, hb, hrest⟩
    · cases as with
      | nil =>
          rw [List.nil_append, List.cons.injEq] at hrest
          rw [List.append_nil] at hb'
          exact ⟨hrest.2, hb' ▸ hne⟩
      | cons x as =>
          rw [List.cons_append, List.cons.injEq] at hrest
          have hx := hbody' x (by rw [hb']; simp)
          rw [← hrest.1, he] at hx
          cases hx
    · cases bs with
      | nil =>
          rw [List.nil_append, List.cons.injEq] at hrest
          rw [List.append_nil] at hb
          exact ⟨hrest.2.symm, hb ▸ hne⟩
      | cons x bs =>
          rw [List.cons_append, List.cons.injEq] at hrest
          have hx := hbody x (by rw [hb]; simp)
          rw [← hrest.1, he'] at hx
          cases hx
  · rintro ⟨rfl, hne⟩
    exact ⟨body, e, rfl, he, hne, hbody⟩

theorem lineByLine_open (h : ∀ d ∈ c, isEol d = false) :
    LineByLine (c :: cs) ↔ ∀ c' ∈ cs, ∀ d ∈ c', isEol d = false := by
  constructor
  · rintro ⟨lines, rest, heq, hlines, hrest⟩
    cases lines with
    | nil =>
        rw [List.nil_append] at heq
        intro c' hc'
        exact hrest c' (heq ▸ List.mem_cons_of_mem c hc')
    | cons l lines =>
        rw [List.cons_append, List.cons.injEq] at heq
        exact absurd h (heq.1 ▸ hlines l List.mem_cons_self).not_open
  · intro hcs
    exact ⟨[], c :: cs, rfl, fun c hc => absurd hc List.not_mem_nil,
      List.forall_mem_cons.mpr ⟨h, hcs⟩⟩

theorem lineByLine_cons (h : ¬∀ d ∈ c, isEol d = false) :
    LineByLine (c :: cs) ↔ IsTyped c ∧ LineByLine cs := by
  constructor
  · rintro ⟨lines, rest, heq, hlines, hrest⟩
    cases lines with
    | nil =>
        rw [List.nil_append] at heq
        exact absurd (hrest c (heq ▸ List.mem_cons_self)) h
    | cons l lines =>
        rw [List.cons_append, List.cons.injEq] at heq
        exact ⟨heq.1 ▸ hlines l List.mem_cons_self,
          ⟨lines, rest, heq.2, fun l' hl' => hlines l' (List.mem_cons_of_mem l hl'), hrest⟩⟩
  · rintro ⟨hc, lines, rest, rfl, hlines, hrest⟩
    exact ⟨c :: lines, rest, rfl, List.forall_mem_cons.mpr ⟨hc, hlines⟩, hrest⟩

end typed

/-! ### One read -/

section program

variable {hexparse : List UInt8 → Option (List UInt8)} {clslot : Bool} {ss : StdinState}
  {r : StdinRead}

/-- The loop passes what is neither CR nor LF while the buffer is there. -/
theorem stdinLoop_skip (hrx : ss.rxMsg.isNone = false) (k : ℕ) {n i : ℕ}
    (h : ∀ j, i ≤ j → j < i + n → isEol (r.octets.getD j 0) = false) :
    stdinLoop hexparse clslot r (n + k) i ss = stdinLoop hexparse clslot r k (i + n) ss := by
  induction n generalizing i with
  | zero => rw [Nat.zero_add, Nat.add_zero]
  | succ n ih =>
      have hcur : isEol (r.cur ss i) = false := by
        rw [StdinRead.cur, hrx]
        exact h i le_rfl (by omega)
      have hrest := ih (i := i + 1) fun j hj hlt => h j (by omega) (by omega)
      rw [show n + 1 + k = n + k + 1 by omega, stdinLoop, hcur, if_neg Bool.false_ne_true, hrest,
        show i + 1 + n = i + (n + 1) by omega]

/-- The loop does not get past a CR or LF that it finds in the freed buffer. -/
theorem stdinLoop_freed (hrx : ss.rxMsg = none) {i : ℕ} (h : isEol (r.freed i) = true) (n : ℕ) :
    stdinLoop hexparse clslot r (n + 1) i ss = none := by
  have hcur : r.cur ss i = r.freed i := by
    rw [StdinRead.cur, hrx]
    rfl
  have hassert : handleStdinCommand hexparse clslot ss (cstr (r.octets.take i)) = none := by
    rw [handleStdinCommand, hrx]
    rfl
  rw [stdinLoop, hcur, if_pos h, hassert]
  rfl

theorem handleStdinCommand_commands {ss' : StdinState} {cmd : List UInt8}
    (h : handleStdinCommand hexparse clslot ss cmd = some ss') :
    ss'.commands = ss.commands ++ [cmd] := by
  unfold handleStdinCommand at h
  split_ifs at h
  cases h
  rfl

theorem stdinLoop_commands {n i : ℕ} {ss' : StdinState}
    (h : stdinLoop hexparse clslot r n i ss = some ss') : ss.commands <+: ss'.commands := by
  induction n generalizing i ss with
  | zero =>
      cases h
      exact List.prefix_rfl
  | succ n ih =>
      rw [stdinLoop] at h
      split_ifs at h
      · obtain ⟨s, hs, hrest⟩ := Option.bind_eq_some_iff.mp h
        have hpre := ih hrest
        change s.commands <+: ss'.commands at hpre
        rw [handleStdinCommand_commands hs] at hpre
        exact (List.prefix_append _ _).trans hpre
      · exact ih h

theorem stdinFdCb_commands {ss' : StdinState} (h : stdinFdCb hexparse clslot ss r = some ss') :
    ss.commands <+: ss'.commands := by
  simp only [stdinFdCb] at h
  split_ifs at h
  have hpre := stdinLoop_commands h
  exact hpre

theorem stdinRun_commands {reads : List StdinRead} {ss' : StdinState}
    (h : stdinRun hexparse clslot ss reads = some ss') : ss.commands <+: ss'.commands := by
  induction reads generalizing ss with
  | nil =>
      cases h
      exact List.prefix_rfl
  | cons r reads ih =>
      obtain ⟨s, hs, hrest⟩ := Option.bind_eq_some_iff.mp h
      exact (stdinFdCb_commands hs).trans (ih hrest)

/-- What was dispatched is what the commands ask for. -/
def Dispatched (hexparse : List UInt8 → Option (List UInt8)) (clslot : Bool) (ss : StdinState) :
    Prop :=
  ss.events = ss.commands.flatMap (commandEvents hexparse clslot)

theorem Dispatched.loop (h : Dispatched hexparse clslot ss) {n i : ℕ} {ss' : StdinState}
    (hloop : stdinLoop hexparse clslot r n i ss = some ss') : Dispatched hexparse clslot ss' := by
  induction n generalizing i ss with
  | zero => exact Option.some.inj hloop ▸ h
  | succ n ih =>
      rw [stdinLoop] at hloop
      split_ifs at hloop
      · obtain ⟨s, hs, hrest⟩ := Option.bind_eq_some_iff.mp hloop
        unfold handleStdinCommand at hs
        split_ifs at hs
        cases hs
        apply ih _ hrest
        unfold Dispatched at h ⊢
        rw [h, List.flatMap_append, List.flatMap_singleton]
      · exact ih h hloop

/-- **The events of a run are those of its commands, in their order.** -/
theorem stdinRun_dispatched (h : Dispatched hexparse clslot ss) {reads : List StdinRead}
    {ss' : StdinState} (hrun : stdinRun hexparse clslot ss reads = some ss') :
    Dispatched hexparse clslot ss' := by
  induction reads generalizing ss with
  | nil => exact Option.some.inj hrun ▸ h
  | cons r reads ih =>
      obtain ⟨s, hs, hrest⟩ := Option.bind_eq_some_iff.mp hrun
      simp only [stdinFdCb] at hs
      split_ifs at hs
      have hput : Dispatched hexparse clslot
          { ss with rxMsg := some (ss.rxMsg.getD [] ++ r.octets) } := h
      exact ih (hput.loop hs) hrest

variable {p body rest : List UInt8} {e : UInt8}

theorem stdinFdCb_open (hp : ss.rxMsg.getD [] = p) (hroom : p.length + r.octets.length ≤ 1024)
    (h : ∀ d ∈ r.octets, isEol d = false) :
    stdinFdCb hexparse clslot ss r = some { ss with rxMsg := some (p ++ r.octets) } := by
  have hskip : stdinLoop hexparse clslot r (r.octets.length + 0) 0
      { ss with rxMsg := some (p ++ r.octets) } =
        some { ss with rxMsg := some (p ++ r.octets) } := by
    apply stdinLoop_skip rfl 0
    intro j _ hj
    rw [Nat.zero_add] at hj
    rw [List.getD_eq_getElem _ _ hj]
    exact h _ (List.getElem_mem hj)
  simp only [stdinFdCb, hp]
  rw [if_pos hroom]
  exact hskip

/-- Up to the first CR or LF: the command is what was read before it, and the buffer is freed. -/
theorem stdinFdCb_first (hp : ss.rxMsg.getD [] = p) (hr : r.octets = body ++ e :: rest)
    (hroom : p.length + r.octets.length ≤ 1024) (hzero : 0 ∉ r.octets)
    (hbody : ∀ d ∈ body, isEol d = false) (he : isEol e = true) :
    stdinFdCb hexparse clslot ss r =
      stdinLoop hexparse clslot r rest.length (body.length + 1)
        ⟨none, ss.commands ++ [body], ss.events ++ commandEvents hexparse clslot body⟩ := by
  have hlen : r.octets.length = body.length + (rest.length + 1) := by
    rw [hr, List.length_append, List.length_cons]
  have hskip : stdinLoop hexparse clslot r (body.length + (rest.length + 1)) 0
      { ss with rxMsg := some (p ++ r.octets) } =
      stdinLoop hexparse clslot r (rest.length + 1) (0 + body.length)
        { ss with rxMsg := some (p ++ r.octets) } := by
    apply stdinLoop_skip rfl
    intro j _ hj
    rw [Nat.zero_add] at hj
    rw [hr, List.getD_append _ _ _ _ hj, List.getD_eq_getElem _ _ hj]
    exact hbody _ (List.getElem_mem hj)
  have heol : isEol (r.cur { ss with rxMsg := some (p ++ r.octets) } body.length) = true := by
    have hcur : r.octets.getD body.length 0 = e := by
      rw [hr, List.getD_append_right _ _ _ _ le_rfl, Nat.sub_self]
      rfl
    exact (congrArg isEol hcur).trans he
  have hcmd : cstr (r.octets.take body.length) = body := by
    rw [hr, List.take_left]
    apply cstr_eq_self
    intro hz
    exact hzero (hr ▸ List.mem_append_left _ hz)
  simp only [stdinFdCb, hp]
  rw [if_pos hroom, hlen, hskip, Nat.zero_add, stdinLoop, if_pos heol, hcmd]
  rfl

/-- **A line in a read of its own is executed**; of a longer read so is only the end. -/
theorem stdinFdCb_line (hp : ss.rxMsg.getD [] = p) (hr : r.octets = body ++ [e])
    (hroom : p.length + r.octets.length ≤ 1024) (hzero : 0 ∉ r.octets)
    (hbody : ∀ d ∈ body, isEol d = false) (he : isEol e = true) :
    stdinFdCb hexparse clslot ss r =
      some ⟨none, ss.commands ++ [body], ss.events ++ commandEvents hexparse clslot body⟩ :=
  stdinFdCb_first hp hr hroom hzero hbody he

/-- **A CR or LF within a read can make the assertion fail**: what follows it is looked for in the
freed buffer. -/
theorem stdinFdCb_inner (hp : ss.rxMsg.getD [] = p) {d : UInt8}
    (hr : r.octets = body ++ e :: d :: rest) (hroom : p.length + r.octets.length ≤ 1024)
    (hzero : 0 ∉ r.octets) (hbody : ∀ d ∈ body, isEol d = false) (he : isEol e = true)
    (hfreed : isEol (r.freed (body.length + 1)) = true) :
    stdinFdCb hexparse clslot ss r = none := by
  rw [stdinFdCb_first hp hr hroom hzero hbody he, List.length_cons]
  exact stdinLoop_freed rfl hfreed _

end program

/-! ### Runs -/

section run

variable {hexparse : List UInt8 → Option (List UInt8)} {clslot : Bool}

/-- The reads that return the same octets differ in what the freed buffer holds. -/
theorem forall_reads_cons {c : List UInt8} {cs : List (List UInt8)} {P : List StdinRead → Prop} :
    (∀ reads, reads.map StdinRead.octets = c :: cs → P reads) ↔
      ∀ freed reads, reads.map StdinRead.octets = cs → P (⟨c, freed⟩ :: reads) := by
  constructor
  · intro h freed reads hreads
    exact h _ (by rw [List.map_cons, hreads])
  · intro h reads hreads
    cases reads with
    | nil => cases hreads
    | cons r reads =>
        rw [List.map_cons, List.cons.injEq] at hreads
        obtain ⟨rfl, hreads⟩ := hreads
        exact h r.freed reads hreads

/-- From a state with the octets `p` in the buffer, the lines of the stream are executed. -/
def ExecutesFrom (hexparse : List UInt8 → Option (List UInt8)) (clslot : Bool) (ss : StdinState)
    (p : List UInt8) (chunks : List (List UInt8)) : Prop :=
  ∀ reads : List StdinRead, reads.map StdinRead.octets = chunks →
    ∃ ss', stdinRun hexparse clslot ss reads = some ss' ∧
      ss'.commands = ss.commands ++ linesOf (p ++ chunks.flatten)

theorem stdinRun_cons (ss : StdinState) (r : StdinRead) (reads : List StdinRead) :
    stdinRun hexparse clslot ss (r :: reads) =
      (stdinFdCb hexparse clslot ss r).bind fun s => stdinRun hexparse clslot s reads := rfl

theorem exists_reads (cs : List (List UInt8)) :
    ∃ reads : List StdinRead, reads.map StdinRead.octets = cs := by
  refine ⟨cs.map fun c => ⟨c, fun _ => 0⟩, ?_⟩
  rw [List.map_map]
  exact List.map_id cs

variable {ss s : StdinState} {p c body : List UInt8} {cs : List (List UInt8)} {e : UInt8}

theorem executesFrom_cons (hread : ∀ freed, stdinFdCb hexparse clslot ss ⟨c, freed⟩ = some s) :
    ExecutesFrom hexparse clslot ss p (c :: cs) ↔
      ∀ reads : List StdinRead, reads.map StdinRead.octets = cs →
        ∃ ss', stdinRun hexparse clslot s reads = some ss' ∧
          ss'.commands = ss.commands ++ linesOf (p ++ c ++ cs.flatten) := by
  unfold ExecutesFrom
  rw [forall_reads_cons]
  simp only [stdinRun_cons, hread, Option.bind_some, List.flatten_cons, List.append_assoc,
    forall_const]

theorem executesFrom_open (hp : ss.rxMsg.getD [] = p) (hroom : p.length + c.length ≤ 1024)
    (h : ∀ d ∈ c, isEol d = false) :
    ExecutesFrom hexparse clslot ss p (c :: cs) ↔
      ExecutesFrom hexparse clslot { ss with rxMsg := some (p ++ c) } (p ++ c) cs :=
  executesFrom_cons fun _ => stdinFdCb_open hp hroom h

theorem executesFrom_line (hp : ss.rxMsg.getD [] = p)
    (hroom : p.length + (body ++ [e]).length ≤ 1024) (hzero : 0 ∉ body ++ [e])
    (hbody : ∀ d ∈ body, isEol d = false) (he : isEol e = true)
    (hopen : ∀ d ∈ p, isEol d = false) :
    ExecutesFrom hexparse clslot ss p ((body ++ [e]) :: cs) ↔
      (p = [] ∧ body ≠ []) ∧ ExecutesFrom hexparse clslot
        ⟨none, ss.commands ++ [body], ss.events ++ commandEvents hexparse clslot body⟩ [] cs := by
  have hpb : ∀ d ∈ p ++ body, isEol d = false := List.forall_mem_append.mpr ⟨hopen, hbody⟩
  have hstream : p ++ (body ++ [e]) ++ cs.flatten = p ++ body ++ e :: cs.flatten := by simp
  have hlines : p = [] ∧ body ≠ [] → ss.commands ++ linesOf (p ++ body ++ e :: cs.flatten) =
      ss.commands ++ [body] ++ linesOf ([] ++ cs.flatten) := by
    rintro ⟨rfl, hne⟩
    rw [List.nil_append, linesOf_line hbody he, if_neg hne, List.nil_append, List.append_assoc]
  rw [executesFrom_cons fun _ => stdinFdCb_line hp rfl hroom hzero hbody he, hstream]
  constructor
  · intro h
    -- the first command after this read decides
    obtain ⟨reads, hreads⟩ := exists_reads cs
    obtain ⟨ss', hrun, hcmds⟩ := h reads hreads
    obtain ⟨X, hX⟩ := stdinRun_commands hrun
    have hfirst : body :: X = linesOf (p ++ body ++ e :: cs.flatten) := by
      rw [hcmds, List.append_assoc] at hX
      exact List.append_cancel_left hX
    have hgood := first_command hpb he hfirst
    refine ⟨hgood, fun reads hreads => ?_⟩
    obtain ⟨ss', hrun, hcmds⟩ := h reads hreads
    exact ⟨ss', hrun, hcmds.trans (hlines hgood)⟩
  · rintro ⟨hgood, h⟩ reads hreads
    obtain ⟨ss', hrun, hcmds⟩ := h reads hreads
    exact ⟨ss', hrun, hcmds.trans (hlines hgood).symm⟩

theorem not_executesFrom_inner (hp : ss.rxMsg.getD [] = p) {d : UInt8} {rest : List UInt8}
    (hc : c = body ++ e :: d :: rest) (hroom : p.length + c.length ≤ 1024) (hzero : 0 ∉ c)
    (hbody : ∀ d ∈ body, isEol d = false) (he : isEol e = true) :
    ¬ExecutesFrom hexparse clslot ss p (c :: cs) := by
  intro h
  obtain ⟨reads, hreads⟩ := exists_reads cs
  obtain ⟨ss', hrun, -⟩ := h (⟨c, fun _ => 10⟩ :: reads) (by rw [List.map_cons, hreads])
  have hread : stdinFdCb hexparse clslot ss ⟨c, fun _ => 10⟩ = none :=
    stdinFdCb_inner hp hc hroom hzero hbody he rfl
  rw [stdinRun_cons, hread] at hrun
  cases hrun

/-- The induction over the reads, with the octets of an unfinished line in the buffer. -/
theorem executesFrom_iff (chunks : List (List UInt8)) {ss : StdinState} {p : List UInt8}
    (hp : ss.rxMsg.getD [] = p) (hopen : ∀ d ∈ p, isEol d = false)
    (hread : Readable p.length chunks) :
    ExecutesFrom hexparse clslot ss p chunks ↔
      LineByLine chunks ∧ (p ≠ [] → ∀ c ∈ chunks, ∀ d ∈ c, isEol d = false) := by
  induction chunks generalizing ss p with
  | nil =>
      refine iff_of_true (fun reads hreads => ?_)
        ⟨⟨[], [], rfl, by simp, by simp⟩, fun _ c hc => absurd hc List.not_mem_nil⟩
      rw [List.map_eq_nil_iff.mp hreads, List.flatten_nil, List.append_nil, linesOf_open hopen]
      exact ⟨ss, rfl, (List.append_nil _).symm⟩
  | cons c cs ih =>
      obtain ⟨⟨hne, hzero, hroom⟩, hrest⟩ := hread
      by_cases hc : ∀ d ∈ c, isEol d = false
      · have hany : c.any isEol = false := by
          rw [List.any_eq_false]
          intro d hd
          rw [hc d hd]
          exact Bool.false_ne_true
        rw [hany, if_neg Bool.false_ne_true, ← List.length_append] at hrest
        have hpc : p ++ c ≠ [] := List.append_ne_nil_of_right_ne_nil p hne
        have hpopen : ∀ d ∈ p ++ c, isEol d = false := List.forall_mem_append.mpr ⟨hopen, hc⟩
        rw [executesFrom_open hp hroom hc, ih (p := p ++ c) rfl hpopen hrest, lineByLine_open hc,
          forall_prop_of_true hpc, List.forall_mem_cons]
        exact ⟨fun h => ⟨h.2, fun _ => ⟨hc, h.2⟩⟩,
          fun h => ⟨⟨[], cs, rfl, by simp, h.1⟩, h.1⟩⟩
      · obtain ⟨body, e, rest, rfl, he, hbody⟩ := (eol_cases c).resolve_left hc
        rw [lineByLine_cons hc, isTyped_iff hbody he]
        cases rest with
        | nil =>
            have hany : (body ++ [e]).any isEol = true := by
              rw [List.any_append, List.any_cons, he, Bool.true_or, Bool.or_true]
            rw [hany, if_pos rfl] at hrest
            rw [executesFrom_line hp hroom hzero hbody he hopen,
              ih (p := []) rfl (fun d hd => absurd hd List.not_mem_nil) hrest]
            constructor
            · rintro ⟨⟨rfl, hbne⟩, hlines, -⟩
              exact ⟨⟨⟨rfl, hbne⟩, hlines⟩, fun hp => absurd rfl hp⟩
            · rintro ⟨⟨⟨-, hbne⟩, hlines⟩, hall⟩
              refine ⟨⟨?_, hbne⟩, hlines, fun hnil => absurd rfl hnil⟩
              by_contra hpne
              exact hc (hall hpne _ List.mem_cons_self)
        | cons d rest =>
            refine iff_of_false (not_executesFrom_inner hp rfl hroom hzero hbody he) ?_
            rintro ⟨⟨⟨hnil, -⟩, -⟩, -⟩
            cases hnil

/-- **The shell executes exactly the typed lines, whatever the freed buffer holds, when each line
comes in a read of its own.** -/
theorem executes_iff {chunks : List (List UInt8)} (h : Readable 0 chunks) :
    Executes hexparse clslot chunks ↔ LineByLine chunks := by
  have hiff : ExecutesFrom hexparse clslot .start [] chunks ↔ _ :=
    executesFrom_iff chunks rfl (fun d hd => absurd hd List.not_mem_nil) h
  exact hiff.trans (and_iff_left fun hp => absurd rfl hp)

theorem executes_typed : Executes (fun _ => none) true [ascii "RESET\n", ascii "00A4\r"] := by
  have hread : Readable 0 [ascii "RESET\n", ascii "00A4\r"] :=
    ⟨⟨by decide, by decide, by decide⟩, ⟨by decide, by decide, by decide⟩, trivial⟩
  refine (executes_iff hread).mpr ⟨[ascii "RESET\n", ascii "00A4\r"], [], rfl, ?_, by simp⟩
  rw [List.forall_mem_cons, List.forall_mem_singleton]
  exact ⟨⟨ascii "RESET", 10, by decide, rfl, by decide, by decide +kernel⟩,
    ⟨ascii "00A4", 13, by decide, rfl, by decide, by decide +kernel⟩⟩

/-- Of a line in two reads the second part is executed, and the assertion fails after a line that
ends with CR and LF, when the freed buffer is left as it was. -/
theorem lines_missed :
    (¬∀ chunks, Readable 0 chunks → Executes (fun _ => none) true chunks) ∧
    ∃ reads : List StdinRead, Readable 0 (reads.map StdinRead.octets) ∧
      stdinRun (fun _ => none) true .start reads = none := by
  constructor
  · intro h
    have hread : Readable 0 [ascii "RE", ascii "SET\n"] :=
      ⟨⟨by decide, by decide, by decide⟩, ⟨by decide, by decide, by decide⟩, trivial⟩
    obtain ⟨ss, hrun, hcmds⟩ := h _ hread
      [⟨ascii "RE", fun _ => 0⟩, ⟨ascii "SET\n", fun _ => 0⟩] rfl
    have hsome : (stdinRun (fun _ => none) true .start
        [⟨ascii "RE", fun _ => 0⟩, ⟨ascii "SET\n", fun _ => 0⟩]).map StdinState.commands =
          some [ascii "SET"] := by decide +kernel
    rw [hrun, Option.map_some, hcmds] at hsome
    exact absurd hsome (by decide +kernel)
  · exact ⟨[⟨ascii "RESET\r\n", fun i => (ascii "RESET\r\n").getD i 0⟩],
      ⟨⟨by decide, by decide, by decide⟩, trivial⟩, by decide +kernel⟩

end run

end Remsim.Shell
