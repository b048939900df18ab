import WordMachine.Machine.Setting
import WordMachine.Proofs.Machine.LimitedStep
import WordMachine.Proofs.Machine.Rounds

/-!
# Output under a limit

With room for some number of bytes a program runs as it does without a limit, up
to the call that prints more than there is room for.  This call fails, so the
run ends there, with the first bytes of the output in the sink.
-/

namespace WordMachine

namespace Machine

variable {m : Machine} {limit : Nat}

/-! ## Runs -/

theorem BoundedStep.unlimited {cancelled : Nat → Bool} {after : Machine}
    {fault : Option RuntimeFault}
    (bounded : m.BoundedStep cancelled limit after fault)
    (unlimited : m.host.output.room = none) :
    after.host.output.room = none := by
  obtain ⟨text, wrote⟩ := bounded.writes
  rw [wrote, Sink.room_write_of_unlimited unlimited]

theorem BoundedStep.grows {cancelled : Nat → Bool} {after : Machine}
    {fault : Option RuntimeFault}
    (bounded : m.BoundedStep cancelled limit after fault)
    (unlimited : m.host.output.room = none) : m.output <+: after.output := by
  obtain ⟨text, wrote⟩ := bounded.writes
  rw [output, output, wrote]
  exact Sink.prefix_write_of_unlimited unlimited text

/-- What a round leaves, without a limit on the output, was printed before or is
printed by an instruction. -/
theorem round_grows (unlimited : m.host.output.room = none) (watch : Watch)
    (number : Nat) :
    (m.round Natives.standard watch number).1.host.output.room = none ∧
      m.output <+: (m.round Natives.standard watch number).1.output := by
  have bounded := step_bounded unlimited (Nat.le_refl _)
    (watch m.host.cancelled number)
  unfold round
  split
  · exact ⟨unlimited, List.prefix_refl _⟩
  · split
    · exact ⟨unlimited, List.prefix_refl _⟩
    · split
      · exact ⟨unlimited, List.prefix_refl _⟩
      · exact ⟨bounded.unlimited unlimited, bounded.grows unlimited⟩

theorem runFrom_grows (unlimited : m.host.output.room = none) (watch : Watch)
    (fuel number : Nat) :
    m.output <+: (m.runFrom Natives.standard watch fuel number).1.output := by
  induction fuel generalizing m number with
  | zero => exact List.prefix_refl _
  | succ fuel ih =>
      obtain ⟨unlimited', grows⟩ := round_grows unlimited watch number
      rw [runFrom_succ]
      rcases after : m.round Natives.standard watch number with ⟨next, stop⟩
      rw [after] at unlimited' grows
      cases stop with
      | none => exact grows.trans (ih unlimited' (number + 1))
      | some stop => exact grows

/-- A step of `m` to `after` prints more than there is room for. -/
structure Crosses (m : Machine) (limit : Nat)
    (cancelled : Nat → Bool) (word : Word) (after : Machine) : Prop where
  ready : m.Ready word .call NativeAddress.printf
  stepped : (m.step Natives.standard cancelled).1 = after
  within : m.output.length ≤ limit
  beyond : limit < after.output.length

/-- A round beside the round under a limit. -/
structure BoundedRound (m : Machine) (watch : Watch) (number limit : Nat)
    (after : Machine) (stop : Option Stop) : Prop where
  within : after.output.length ≤ limit →
    (m.limited limit).round Natives.standard watch number =
      (after.limited limit, stop)
  beyond : limit < after.output.length →
    ∃ word reason, m.Crosses limit (watch m.host.cancelled number) word after ∧
      (m.limited limit).round Natives.standard watch number =
        ((m.stuck after).limited limit, some (.failed ⟨m.pc, word, reason⟩))

/-- A round that prints nothing does the same under a limit. -/
theorem BoundedRound.of_silent {watch : Watch} {number : Nat} {after : Machine}
    {stop : Option Stop} (within : m.output.length ≤ limit)
    (silent : after.output = m.output)
    (same : (m.limited limit).round Natives.standard watch number =
      (after.limited limit, stop)) :
    m.BoundedRound watch number limit after stop where
  within _ := same
  beyond crossed := by
    rw [silent] at crossed
    exact absurd within (Nat.not_le.mpr crossed)

theorem round_bounded (unlimited : m.host.output.room = none)
    (within : m.output.length ≤ limit) (watch : Watch) (number : Nat) :
    m.BoundedRound watch number limit (m.round Natives.standard watch number).1
      (m.round Natives.standard watch number).2 := by
  have halts : (m.limited limit).isHalted = m.isHalted := rfl
  have spends : (m.limited limit).isSpent = m.isSpent := rfl
  have wishes : (m.limited limit).host.cancelled = m.host.cancelled := rfl
  by_cases halted : m.isHalted = true
  · apply BoundedRound.of_silent within
    · rw [round, if_pos halted]
      rfl
    · rw [round, round, halts, if_pos halted, if_pos halted]
      rfl
  by_cases spent : m.isSpent = true
  · apply BoundedRound.of_silent within
    · rw [round, if_neg halted, if_pos spent]
    · rw [round, round, halts, spends, if_neg halted, if_neg halted,
        if_pos spent, if_pos spent]
      rfl
  by_cases asked : (number % watchInterval = 0 &&
    watch m.host.cancelled number 0) = true
  · apply BoundedRound.of_silent within
    · rw [round, if_neg halted, if_neg spent, if_pos asked]
    · rw [round, round, halts, spends, wishes, if_neg halted,
        if_neg halted, if_neg spent, if_neg spent, if_pos asked, if_pos asked]
  -- the round executes an instruction
  have bounded := step_bounded unlimited within (watch m.host.cancelled number)
  have rounds : m.round Natives.standard watch number =
      ((m.step Natives.standard (watch m.host.cancelled number)).1,
        (m.step Natives.standard (watch m.host.cancelled number)).2.map
          .failed) := by
    rw [round, if_neg halted, if_neg spent, if_neg asked]
  have rounds' : (m.limited limit).round Natives.standard watch number =
      (((m.limited limit).step Natives.standard
        (watch m.host.cancelled number)).1,
        ((m.limited limit).step Natives.standard
          (watch m.host.cancelled number)).2.map .failed) := by
    rw [round, halts, spends, wishes, if_neg halted, if_neg spent, if_neg asked]
  rw [rounds]
  constructor
  · intro fits
    rw [rounds', bounded.within fits]
  · intro crossed
    obtain ⟨word, reason, ready, stepped⟩ := bounded.beyond crossed
    refine ⟨word, reason, ⟨ready, rfl, within, crossed⟩, ?_⟩
    rw [rounds', stepped]
    rfl

theorem stepped_of_round {natives : Natives} {watch : Watch} {number : Nat}
    {after : Machine} (rounded : m.round natives watch number = (after, none)) :
    m.step natives (watch m.host.cancelled number) = (after, none) := by
  rcases round_cases natives watch number m with
    ⟨next, goes⟩ | ⟨final, stop, ended, -, -⟩
  · cases goes.round.symm.trans rounded
    exact goes.stepped
  · cases ended.symm.trans rounded

/-- Under a limit a run is the same if its output fits, and otherwise stops at
the call that prints too much. -/
theorem runFrom_bounded {watch : Watch} {fuel number : Nat}
    {done : Machine} {stop : Stop} (unlimited : m.host.output.room = none)
    (within : m.output.length ≤ limit)
    (ran : m.runFrom Natives.standard watch fuel number = (done, stop)) :
    (done.output.length ≤ limit →
      (m.limited limit).runFrom Natives.standard watch fuel number =
        (done.limited limit, stop)) ∧
    (limit < done.output.length →
      ∃ n last word after reason,
        m.Executes Natives.standard watch number n last ∧
        last.Crosses limit (watch last.host.cancelled (number + n)) word after ∧
        after.output <+: done.output ∧
        (m.limited limit).runFrom Natives.standard watch fuel number =
          ((last.stuck after).limited limit,
            .failed ⟨last.pc, word, reason⟩)) := by
  induction fuel generalizing m number with
  | zero =>
      cases ran
      refine ⟨fun _ => rfl, ?_⟩
      intro crossed
      exact absurd within (Nat.not_le.mpr crossed)
  | succ fuel ih =>
      have bounded := round_bounded unlimited within watch number
      obtain ⟨unlimited', -⟩ := round_grows unlimited watch number
      rw [runFrom_succ] at ran ⊢
      rcases rounded : m.round Natives.standard watch number with ⟨after, ended⟩
      rw [rounded] at bounded unlimited' ran
      dsimp only at bounded unlimited' ran
      have grows : after.output <+: done.output := by
        cases ended with
        | none =>
            have grows := runFrom_grows unlimited' watch fuel (number + 1)
            have rest : after.runFrom Natives.standard watch fuel (number + 1) =
                (done, stop) :=
              ran
            rwa [rest] at grows
        | some reason =>
            cases ran
            exact List.prefix_refl _
      -- if the first round fits, the rest of the run decides; if not, both runs
      -- part here, and the one without limit can only print more
      by_cases fits : after.output.length ≤ limit
      · rw [bounded.within fits]
        cases ended with
        | some reason =>
            cases ran
            refine ⟨fun _ => rfl, ?_⟩
            intro crossed
            exact absurd fits (Nat.not_le.mpr crossed)
        | none =>
            obtain ⟨same, into⟩ := ih unlimited' fits ran
            refine ⟨same, ?_⟩
            intro crossed
            obtain ⟨n, last, word, past, reason, executes, crosses, rest⟩ :=
              into crossed
            rw [Nat.add_right_comm] at crosses
            exact ⟨n + 1, last, word, past, reason,
              .more (stepped_of_round rounded) executes, crosses, rest⟩
      · obtain ⟨word, reason, crosses, held⟩ :=
          bounded.beyond (Nat.lt_of_not_le fits)
        rw [held]
        constructor
        · intro fits'
          exact absurd (Nat.le_trans grows.length_le fits') fits
        · intro _
          exact ⟨0, m, word, after, reason, .nothing number m,
            crosses, grows, rfl⟩

/-- The run of a machine that printed no more than the limit so far, beside the
run under the limit. -/
theorem Returns.bounded {watch : Watch} {done : Machine} {stop : Stop}
    (returns : m.Returns Natives.standard watch done stop)
    (unlimited : m.host.output.room = none) (within : m.output.length ≤ limit) :
    ∃ done' stop',
      (m.limited limit).Returns Natives.standard watch done' stop' ∧
      done'.output = done.output.take limit ∧
      (done.output.length ≤ limit →
        stop' = stop ∧ done'.withOutput done.host.output = done) ∧
      (limit < done.output.length →
        ∃ n last word after reason,
          m.Executes Natives.standard watch 0 n last ∧
          last.Crosses limit (watch last.host.cancelled n) word after ∧
          stop' = .failed ⟨last.pc, word, reason⟩ ∧
          done' = (last.stuck after).limited limit) := by
  obtain ⟨finished, rounds, ran⟩ := returns
  obtain ⟨same, into⟩ := runFrom_bounded unlimited within
    (ran (rounds + 1) (Nat.lt_succ_self rounds))
  by_cases fits : done.output.length ≤ limit
  · refine ⟨done.limited limit, stop,
      returns_of_run _ (same fits) finished, ?_, ?_, ?_⟩
    · exact Sink.text_limited done.host.output limit
    · intro _
      exact ⟨rfl, rfl⟩
    · intro crossed
      exact absurd fits (Nat.not_le.mpr crossed)
  · obtain ⟨n, last, word, after, reason, executes, crosses,
        ⟨rest, whole⟩, held⟩ :=
      into (Nat.lt_of_not_le fits)
    rw [Nat.zero_add] at crosses
    refine ⟨(last.stuck after).limited limit, .failed ⟨last.pc, word, reason⟩,
      returns_of_run _ held Stop.noConfusion, ?_, ?_, ?_⟩
    · rw [← whole, List.take_append_of_le_length (Nat.le_of_lt crosses.beyond)]
      exact Sink.text_limited after.host.output limit
    · intro fits'
      exact absurd fits' fits
    · intro _
      exact ⟨n, last, word, after, reason, executes, crosses, rfl, rfl⟩

/-! ## Machines made for a limit -/

theorem configure_limited (m : Machine) (limit : Nat) (setting : Setting) :
    (m.limited limit).configure setting =
      (m.configure setting).map (·.limited limit) := by
  cases setting with
  | memory size =>
      have same : (m.limited limit).memory = m.memory := rfl
      unfold configure
      rw [same]
      dsimp only
      split
      · rfl
      · split <;> rfl
  | stack size | calls depth | steps limit' =>
      unfold configure
      dsimp only
      split <;> rfl
  | trace enabled => rfl
  | discardOutput =>
      have kept : (m.withOutput .discard).limited limit =
          m.withOutput .discard :=
        congrArg m.withOutput (Sink.limited_discard limit)
      exact congrArg Except.ok kept.symm

theorem configureAll_limited (m : Machine) (limit : Nat)
    (settings : List Setting) :
    (m.limited limit).configureAll settings =
      ((m.configureAll settings).1.limited limit,
        (m.configureAll settings).2) := by
  induction settings generalizing m with
  | nil => rfl
  | cons setting rest ih =>
      rw [configureAll, configureAll, configure_limited]
      cases m.configure setting with
      | ok next => exact ih next
      | error fault => rfl

theorem new_limited (host : Host) (settings : List Setting) (limit : Nat) :
    Machine.new { host with output := .ofLimit (some limit) } settings =
      (Machine.new { host with output := .ofLimit none } settings).map
        (·.limited limit) := by
  have configured := configureAll_limited
    { memory := Array.replicate defaultMemorySize 0,
      host := { host with output := .ofLimit none } }
    limit settings
  rw [limited, Sink.limited_ofLimit] at configured
  dsimp only [withOutput] at configured
  rw [Machine.new, Machine.new, configured]
  rcases configureAll _ settings with ⟨m, _ | fault⟩ <;> rfl

theorem load_limited (m : Machine) (limit : Nat) (program : Array Word) :
    (m.limited limit).load program =
      (m.load program).map (·.limited limit) := by
  by_cases fits : program.size ≤ m.memory.size
  · have fits' : program.size ≤ (m.limited limit).memory.size := fits
    rw [load, load, if_pos fits, if_pos fits']
    rfl
  · have large : ¬ program.size ≤ (m.limited limit).memory.size := fits
    rw [load, load, if_neg fits, if_neg large]
    rfl

theorem output_configure {setting : Setting} {next : Machine}
    (configured : m.configure setting = .ok next) :
    next.host.output = m.host.output ∨ next.host.output = .discard := by
  cases setting with
  | memory size =>
      unfold configure at configured
      dsimp only at configured
      split at configured
      · cases configured
      · split at configured
        · cases configured
        · cases configured
          exact .inl rfl
  | stack size | calls depth | steps limit =>
      unfold configure at configured
      dsimp only at configured
      split at configured
      · cases configured
      · cases configured
        exact .inl rfl
  | trace enabled =>
      cases configured
      exact .inl rfl
  | discardOutput =>
      cases configured
      exact .inr rfl

/-- Settings leave the sink or replace it by one that keeps nothing. -/
theorem output_configureAll (m : Machine) (settings : List Setting) :
    (m.configureAll settings).1.host.output = m.host.output ∨
      (m.configureAll settings).1.host.output = .discard := by
  induction settings generalizing m with
  | nil => exact .inl rfl
  | cons setting rest ih =>
      rw [configureAll]
      cases configured : m.configure setting with
      | error fault => exact .inl rfl
      | ok next =>
          rcases ih next with same | dropped
          · rw [same]
            exact output_configure configured
          · exact .inr dropped

theorem output_new {host : Host} {settings : List Setting} {fresh : Machine}
    (made : Machine.new host settings = .ok fresh) :
    fresh.host.output = host.output ∨ fresh.host.output = .discard := by
  have outputs := output_configureAll
    { memory := Array.replicate defaultMemorySize 0, host := host } settings
  unfold Machine.new at made
  dsimp only at made
  split at made
  next m configured =>
    cases made
    rwa [configured] at outputs
  next => cases made

theorem output_load {start : Machine} {program : Array Word}
    (loaded : m.load program = .ok start) :
    start.host.output = m.host.output := by
  unfold load at loaded
  split at loaded
  · cases loaded
    rfl
  · cases loaded

/-- With room for `limit` bytes of output, a run that ends leaves the first
`limit` bytes of what it prints when there is no limit.  If these are all, it
ends in the same way and with the same machine; if not, it executes the same
instructions up to the call of `printf` that crosses the limit, and fails
there. -/
theorem bounded_sink_keeps_prefix (host : Host) (settings : List Setting)
    (program : Array Word) (pc : Int) (watch : Watch) (limit : Nat)
    {fresh start done : Machine} {stop : Stop}
    (made : Machine.new { host with output := .ofLimit none } settings =
      .ok fresh)
    (loaded : fresh.load program = .ok start)
    (returns : { start with pc := pc }.Returns Natives.standard
      watch done stop) :
    ∃ fresh' start' done' stop',
      Machine.new { host with output := .ofLimit (some limit) } settings =
        .ok fresh' ∧
      fresh'.load program = .ok start' ∧
      { start' with pc := pc }.Returns Natives.standard watch done' stop' ∧
      done'.output = done.output.take limit ∧
      (done.output.length ≤ limit →
        stop' = stop ∧ done'.withOutput done.host.output = done) ∧
      (limit < done.output.length →
        ∃ n last word after reason,
          { start with pc := pc }.Executes Natives.standard watch 0 n last ∧
          last.Crosses limit (watch last.host.cancelled n) word after ∧
          stop' = .failed ⟨last.pc, word, reason⟩ ∧
          done' = (last.stuck after).limited limit) := by
  have made' : Machine.new
      { host with output := .ofLimit (some limit) } settings =
      .ok (fresh.limited limit) := by
    rw [new_limited, made]
    rfl
  have loaded' : (fresh.limited limit).load program =
      .ok (start.limited limit) := by
    rw [load_limited, loaded]
    rfl
  have nothing : start.host.output.room = none ∧ start.output = [] := by
    rw [output, output_load loaded]
    rcases output_new made with kept | dropped
    · rw [kept]
      exact ⟨rfl, rfl⟩
    · rw [dropped]
      exact ⟨rfl, rfl⟩
  have within : start.output.length ≤ limit := by
    rw [nothing.2]
    exact Nat.zero_le limit
  obtain ⟨done', stop', returns', results⟩ := returns.bounded nothing.1 within
  exact ⟨_, _, done', stop', made', loaded', returns', results⟩

/-- A program that prints the same greeting twice. -/
def greeting : Array Word :=
  #[Opcode.loads.code, 9, Opcode.call.code, NativeAddress.printf,
    Opcode.loads.code, 9, Opcode.call.code, NativeAddress.printf,
    Opcode.halt.code, Word.ofChar 'h', Word.ofChar 'i', 0]

theorem resize_greeting :
    resize (Array.replicate defaultMemorySize 0) 12 = Array.replicate 12 0 := by
  simp [resize, defaultMemorySize]

theorem bounded_sink_keeps_prefix_greeting :
    ∃ fresh start done fresh' start' done' fault,
      Machine.new { output := .ofLimit none } [.memory 12] = .ok fresh ∧
      fresh.load greeting = .ok start ∧
      { start with pc := 0 }.Returns Natives.standard Watch.never done .halted ∧
      done.output = Text.ofString "hihi" ∧
      Machine.new { output := .ofLimit (some 3) } [.memory 12] = .ok fresh' ∧
      fresh'.load greeting = .ok start' ∧
      { start' with pc := 0 }.Returns Natives.standard Watch.never done'
        (.failed fault) ∧
      done'.output = Text.ofString "hih" := by
  have made : Machine.new { output := .ofLimit none } [.memory 12] =
      .ok { memory := Array.replicate 12 0
            host := { output := .ofLimit none } } := by
    rw [← resize_greeting]
    rfl
  obtain ⟨start, done, loaded, ran, printed⟩ : ∃ start done,
      Machine.load { memory := Array.replicate 12 0
                     host := { output := .ofLimit none } } greeting =
        .ok start ∧
      { start with pc := 0 }.run Natives.standard Watch.never 8 =
        (done, .halted) ∧
      done.output = Text.ofString "hihi" :=
    ⟨_, _, rfl, Prod.ext rfl (by decide +kernel), by decide +kernel⟩
  have returns : { start with pc := 0 }.Returns Natives.standard Watch.never
    done .halted :=
    returns_of_run 8 ran Stop.noConfusion
  obtain ⟨fresh', start', done', stop', made', loaded', returns',
      kept, -, fails⟩ :=
    bounded_sink_keeps_prefix {} [.memory 12] greeting 0 Watch.never 3 made
      loaded returns
  rw [printed] at kept fails
  obtain ⟨n, last, word, after, reason, -, -, failed, -⟩ :=
    fails (by decide +kernel)
  rw [failed] at returns'
  exact ⟨_, start, done, fresh', start', done', _, made, loaded, returns,
    printed, made', loaded', returns', kept.trans (by decide +kernel)⟩

end Machine

end WordMachine
