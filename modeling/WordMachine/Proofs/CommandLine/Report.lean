import WordMachine.CommandLine
import WordMachine.Proofs.Json.Forms
import WordMachine.Proofs.Machine.Feeding
import WordMachine.Proofs.Machine.Tracing

/-!
# What an invocation reports

The file, the input, the instruction limit and the wish for a summary decide the exit code and
the output of an invocation: they are those of one run of the `bare` machine, which traces
nothing (`outcome?_eq`).  It does not matter whether the invocation is debugged, which journal
is shown, or by which path the file was found.

The output never refuses a byte here, so it ends up with the bytes that the program has sent to
the console, and at most a summary behind them.
-/

namespace WordMachine

open Json

namespace CommandLine

/-- The machine that an invocation runs, without tracing. -/
def bare (limit : Option UInt64) (data input : List Byte) : Machine :=
  .ofRom (.ofBytes data) (input.map .byte) .accepting ⟨false, limit⟩

def Report.outcome (report : Report) : UInt8 × List Byte := (report.exitCode, report.output)

/-- The report is one of this run, with a summary in it if `json` asks for one. -/
structure Report.Tells (report : Report) (json : Bool) (run : Machine.RunResult) : Prop where
  success : report.exitCode = 0 ↔ ∃ summary, run.result = some (.ok summary)
  failure : report.exitCode ≠ 0 → report.exitCode = 1 ∧ report.output = run.sentBytes
  silent : json = false → report.output = run.sentBytes
  /-- The text of the summary stands alone behind the bytes, and determines the summary. -/
  summary : ∀ summary, json = true → run.result = some (.ok summary) →
    ∃ text, report.output = run.sentBytes ++ (text ++ "\n").toUTF8.toList ∧
      text = (toJson summary).pretty ∧ (parse? text).bind ofJson? = some summary

variable {options : Options} {environment : Environment} {data : List Byte}

theorem run_machine (options : Options) (data input : List Byte) (rounds : Nat) :
    let run := (bare options.instructionLimit data input).run rounds
    (options.machine (.ofBytes data) (input.map .byte)).run rounds =
      ⟨run.result, run.machine.withTrace options.debug,
        run.events.map (MachineEvent.retraced options.debug)⟩ :=
  (bare options.instructionLimit data input).run_withTrace options.debug rounds

/-- A report does not tell what is left of the input. -/
theorem report?_feed
    (options : Options) (setting : Option String) (rom : RomImage) (run : Machine.RunResult)
    (items : List InputItem) :
    options.report? setting rom { run with machine := run.machine.feed items } =
      options.report? setting rom run := by
  rcases run with ⟨_ | result, machine, events⟩
  · rfl
  · cases result with
    | ok summary => rfl
    | error error => rfl

/-- The report is that of a run which is given the input byte by byte, as the program asks
for it. -/
theorem run_eq_fed (options : Options) (environment : Environment) (rounds : Nat) :
    options.run rounds environment =
      match RomImage.load options.romPath (environment.content options.romPath) with
      | .error error => some (.ofRomError error)
      | .ok rom =>
        options.report? environment.journalSetting rom
          ((options.machine rom []).runFed rounds environment.input).1 := by
  unfold Options.run
  cases RomImage.load options.romPath (environment.content options.romPath) with
  | error error => rfl
  | ok rom =>
      have hfed := (options.machine rom []).run_feed_waiting rounds environment.input
      have hstart : options.machine rom (environment.input.map .byte) =
          (options.machine rom []).feed (environment.input.map .byte) := rfl
      simp only [hstart, hfed, report?_feed]

/-- The exit code and the output that a run of the machine leads to, if it has ended. -/
def outcomeOf? (json : Bool) (run : Machine.RunResult) : Option (UInt8 × List Byte) :=
  run.result.map fun
    | .ok summary =>
      (0, run.sentBytes ++ if json then ((toJson summary).pretty ++ "\n").toUTF8.toList else [])
    | .error _ => (1, run.sentBytes)

/-- The exit code and the output of an invocation, from what decides them. -/
def outcome? (rounds : Nat) (limit : Option UInt64) (json : Bool)
    (content : Except FileError (List Byte)) (input : List Byte) : Option (UInt8 × List Byte) :=
  match content with
  | .error _ | .ok [] => some (1, [])
  | .ok data => outcomeOf? json ((bare limit data input).run rounds)

theorem outcome?_of_image
    {rounds : Nat} {limit : Option UInt64} {json : Bool} {input : List Byte} (hne : data ≠ []) :
    outcome? rounds limit json (.ok data) input =
      outcomeOf? json ((bare limit data input).run rounds) := by
  cases data with
  | nil => contradiction
  | cons first rest => rfl

theorem outcome?_of_no_image
    {content : Except FileError (List Byte)} (hnone : ∀ data, content = .ok data → data = [])
    (rounds : Nat) (limit : Option UInt64) (json : Bool) (input : List Byte) :
    outcome? rounds limit json content input = some (1, []) := by
  cases content with
  | error cause => rfl
  | ok data =>
      obtain rfl := hnone data rfl
      rfl

/-- The report has the outcome of any run with the result and the bytes of its own. -/
theorem outcome_report?
    (options : Options) (setting : Option String) (rom : RomImage) {run other : Machine.RunResult}
    (hresult : other.result = run.result)
    (houtput : run.machine.cpu.bus.output.emitted.toList = other.sentBytes) :
    (options.report? setting rom run).map Report.outcome = outcomeOf? options.json other := by
  unfold outcomeOf?
  rw [hresult, ← houtput]
  rcases run with ⟨_ | (error | summary), machine, events⟩
  · rfl
  · simp [Options.report?, Report.outcome, exitCode, Options.closing]
  · cases hjson : options.json <;>
      simp [Options.report?, Report.outcome, exitCode, Options.closing, hjson]

theorem outcome?_eq (options : Options) (environment : Environment) (rounds : Nat) :
    (options.run rounds environment).map Report.outcome =
      outcome? rounds options.instructionLimit options.json
        (environment.content options.romPath) environment.input := by
  unfold Options.run
  cases hcontent : environment.content options.romPath with
  | error cause => rfl
  | ok data =>
      cases data with
      | nil => rfl
      | cons first rest =>
          rw [outcome?_of_image (List.cons_ne_nil first rest)]
          simp only [RomImage.load]
          rw [run_machine]
          apply outcome_report?
          · rfl
          · exact Machine.emitted_run_accepting rfl rounds

theorem tells_of_outcome
    {json : Bool} {run : Machine.RunResult} {report : Report}
    (houtcome : some report.outcome = outcomeOf? json run) :
    report.Tells json run := by
  unfold outcomeOf? Report.outcome at houtcome
  cases hresult : run.result with
  | none =>
      rw [hresult] at houtcome
      contradiction
  | some result =>
      rw [hresult] at houtcome
      cases result with
      | error error =>
          obtain ⟨hexit, houtput⟩ : report.exitCode = 1 ∧ report.output = run.sentBytes := by
            simpa using houtcome
          constructor
          · simp [hexit, hresult]
          · exact fun _ => ⟨hexit, houtput⟩
          · exact fun _ => houtput
          · simp [hresult]
      | ok summary =>
          simp only [Option.map_some, Option.some.injEq, Prod.mk.injEq] at houtcome
          obtain ⟨hexit, houtput⟩ := houtcome
          constructor
          · simp [hexit, hresult]
          · exact fun hfailed => absurd hexit hfailed
          · intro hjson
            simpa [hjson] using houtput
          · intro other hjson hother
            obtain rfl : summary = other := by
              simpa [hresult] using hother
            refine ⟨_, ?_, rfl, parse?_pretty_toJson summary⟩
            rw [houtput, if_pos hjson]

theorem run_of_options
    {arguments : List String} (hparse : Request.ofArguments arguments = .ok (.run options))
    (rounds : Nat) (environment : Environment) :
    run rounds arguments environment = options.run rounds environment := by
  rw [run, hparse]

theorem run_eq_of_report
    {rounds more : Nat} {report : Report}
    (hreport : options.run rounds environment = some report) (hle : rounds ≤ more) :
    options.run more environment = some report := by
  unfold Options.run at hreport ⊢
  cases hrom : RomImage.load options.romPath (environment.content options.romPath) with
  | error error =>
      rw [hrom] at hreport
      exact hreport
  | ok rom =>
      rw [hrom] at hreport
      simp only at hreport ⊢
      rcases hrun : (options.machine rom (environment.input.map .byte)).run rounds with
        ⟨_ | result, machine, events⟩
      · rw [hrun] at hreport
        contradiction
      · have hended : ((options.machine rom (environment.input.map .byte)).run rounds).result =
            some result := by
          rw [hrun]
        rw [Machine.run_eq_of_ended hended hle]
        exact hreport

/-- The law of an invocation that asks for a run.  Without an image it fails and puts out
nothing.  With one it reports as soon as the run of the machine has ended, and reports what
that run has done; nothing changes in the report from then on.  Two invocations that agree in
the file, the input, the limit and the wish for a summary have the same exit code and output,
whatever else they ask for. -/
theorem run_report
    {arguments : List String} (hparse : Request.ofArguments arguments = .ok (.run options))
    (environment : Environment) (rounds : Nat) :
    let content := environment.content options.romPath
    let runOf := fun data =>
      (bare options.instructionLimit data environment.input).run rounds
    ((∀ data, content = .ok data → data = []) →
      ∃ report, run rounds arguments environment = some report ∧
        report.exitCode = 1 ∧ report.output = []) ∧
    (∀ data, content = .ok data → data ≠ [] →
      ((runOf data).result = none → run rounds arguments environment = none) ∧
      ((runOf data).result ≠ none → ∃ report,
        run rounds arguments environment = some report ∧
          report.Tells options.json (runOf data))) ∧
    (∀ report more, run rounds arguments environment = some report → rounds ≤ more →
      run more arguments environment = some report) ∧
    ∀ arguments' options' environment',
      Request.ofArguments arguments' = .ok (.run options') →
      options'.instructionLimit = options.instructionLimit → options'.json = options.json →
      environment'.content options'.romPath = content →
      environment'.input = environment.input →
        (run rounds arguments' environment').map Report.outcome =
          (run rounds arguments environment).map Report.outcome := by
  intro content runOf
  have houtcome := outcome?_eq options environment rounds
  rw [run_of_options hparse]
  refine ⟨?_, ?_, ?_, ?_⟩
  · intro hnone
    rw [outcome?_of_no_image hnone] at houtcome
    obtain ⟨report, hreport, hseen⟩ := Option.map_eq_some_iff.mp houtcome
    rw [Report.outcome, Prod.mk.injEq] at hseen
    exact ⟨report, hreport, hseen⟩
  · intro data hcontent hne
    have hcontent : environment.content options.romPath = .ok data := hcontent
    rw [hcontent, outcome?_of_image hne] at houtcome
    constructor
    · intro hopen
      rw [outcomeOf?, hopen] at houtcome
      exact Option.map_eq_none_iff.mp houtcome
    · intro hended
      cases hreport : options.run rounds environment with
      | none =>
          rw [hreport, outcomeOf?] at houtcome
          exact absurd (Option.map_eq_none_iff.mp houtcome.symm) hended
      | some report =>
          rw [hreport] at houtcome
          exact ⟨report, rfl, tells_of_outcome houtcome⟩
  · intro report more hreport hle
    rw [run_of_options hparse]
    exact run_eq_of_report hreport hle
  · intro arguments' options' environment' hparse' hlimit hjson hcontent hinput
    rw [run_of_options hparse', outcome?_eq, houtcome, hlimit, hjson, hcontent, hinput]

/-- A program that puts out one byte and stops. -/
def oneByte : List Byte :=
  [0x04, 0x10, 0x02, 0x00, 0x40, 0x41, 0x30, 0x00, 0x04, 0x10, 0x00, 0x00, 0x30, 0x00]

/-- Behind the byte there is the summary, and debugging does not show. -/
theorem run_report_one_byte :
    let arguments := ["rom.bin", "--json"]
    let debugging := ["-d", "rom.bin", "--json"]
    let summary : RunSummary := ⟨5, .exitStrobe, (Registers.startingAt 17).set 0 0x41⟩
    let environment : Environment := ⟨fun _ => .ok oneByte, [], none⟩
    let environment' : Environment := ⟨fun _ => .ok oneByte, [], some "off"⟩
    ∃ report text,
      run 6 arguments environment = some report ∧ report.exitCode = 0 ∧
        report.output = [0x41] ++ (text ++ "\n").toUTF8.toList ∧
        (parse? text).bind ofJson? = some summary ∧
        (run 6 debugging environment').map Report.outcome = some report.outcome := by
  intro arguments debugging summary environment environment'
  have hparse : Request.ofArguments arguments =
      .ok (.run ⟨"rom.bin", false, none, true⟩) := by rfl
  have hparse' : Request.ofArguments debugging =
      .ok (.run ⟨"rom.bin", true, none, true⟩) := by rfl
  have hresult : ((bare none oneByte []).run 6).result = some (.ok summary) := by rfl
  have hsent : ((bare none oneByte []).run 6).sentBytes = [0x41] := by rfl
  have hended : ((bare none oneByte []).run 6).result ≠ none := by
    rw [hresult]
    exact Option.some_ne_none _
  obtain ⟨-, himage, -, hsame⟩ := run_report hparse environment 6
  obtain ⟨report, hreport, htells⟩ := (himage oneByte rfl (List.cons_ne_nil _ _)).2 hended
  obtain ⟨text, houtput, -, hread⟩ := htells.summary summary rfl hresult
  have hexit : report.exitCode = 0 := htells.success.mpr ⟨summary, hresult⟩
  have houtput : report.output =
      ((bare none oneByte []).run 6).sentBytes ++ (text ++ "\n").toUTF8.toList := houtput
  refine ⟨report, text, hreport, hexit, ?_, hread, ?_⟩
  · rw [houtput, hsent]
  · rw [hsame debugging _ environment' hparse' rfl rfl rfl rfl, hreport, Option.map_some]

end CommandLine

end WordMachine
