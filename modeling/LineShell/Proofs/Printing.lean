import LineShell.Builtin.Standard
import LineShell.Execution

namespace LineShell

/-! What the standard built-ins print, and what of it arrives.

A text may be written in any number of pieces. As much of it arrives as there is room for, and
the write fails exactly if that is not all of it, wherever the room ends within a piece. So the
answer of a built-in depends on its arguments, and on whether what it prints fits.
-/

namespace Sink

theorem writeBytes_nil (sink : Sink) : sink.writeBytes [] = (sink, true) := by
  obtain ⟨written, room⟩ := sink
  cases room <;> simp [writeBytes]

/-- Writing on goes on where the first write ended, if that one did not fail. -/
theorem writeBytes_append (sink : Sink) (left right : Bytes) :
    sink.writeBytes (left ++ right) =
      match sink.writeBytes left with
      | (sink, true) => sink.writeBytes right
      | (sink, false) => (sink, false) := by
  obtain ⟨written, room⟩ := sink
  cases room with
  | none => simp [writeBytes]
  | some room =>
      by_cases fits : left.length ≤ room
      · have whole : left.take room = left := List.take_of_length_le fits
        have left_over : room - (left.length + right.length) =
            room - left.length - right.length := by omega
        have fits_iff : left.length + right.length ≤ room ↔ right.length ≤ room - left.length := by
          omega
        simp [writeBytes, fits, List.take_append, whole, left_over, fits_iff]
      · have nothing : room - left.length = 0 := by omega
        have nothing' : room - (left.length + right.length) = 0 := by omega
        have lost : ¬ left.length + right.length ≤ room := by omega
        simp [writeBytes, fits, List.take_append, nothing, nothing', lost]

/-- It does not matter into which pieces a text is divided. -/
theorem writeAll_eq_write (sink : Sink) (texts : List Text) :
    sink.writeAll texts = sink.write texts.flatten := by
  induction texts generalizing sink with
  | nil => exact (writeBytes_nil sink).symm
  | cons text texts ih =>
      have encoded : Utf8.encode (text ++ texts.flatten) =
          Utf8.encode text ++ Utf8.encode texts.flatten := List.flatMap_append
      rw [List.flatten_cons, write, encoded, writeBytes_append, ← write, writeAll]
      cases sink.write text with
      | mk sink fitted =>
          cases fitted with
          | true => exact ih sink
          | false => rfl

end Sink

namespace Registry

variable {registry : Registry} {name : Text}

/-- The registry with more built-ins, registered one after the other. -/
def registerAll (registry : Registry) (builtins : List Builtin) : Registry :=
  builtins.foldl (fun registry builtin => registry.register builtin) registry

theorem names_register (registry : Registry) (builtin : Builtin) :
    (registry.register builtin).names = NameSet.insertInto builtin.name registry.names := by
  obtain ⟨builtins⟩ := registry
  simp only [register, names]
  induction builtins with
  | nil => rfl
  | cons head rest ih =>
      rw [insertInto, List.map_cons, NameSet.insertInto]
      split
      · rfl
      split
      · next same => rw [List.map_cons, same]
      · rw [List.map_cons, ih]

theorem find?_cons (builtin : Builtin) (builtins : List Builtin) (name : Text) :
    (builtin :: builtins).find? (·.name = name) =
      if builtin.name = name then some builtin else builtins.find? (·.name = name) := by
  rw [List.find?_cons]
  by_cases same : builtin.name = name <;> simp [same]

theorem get?_register (registry : Registry) (builtin : Builtin) (name : Text) :
    (registry.register builtin).get? name =
      if builtin.name = name then some builtin else registry.get? name := by
  obtain ⟨builtins⟩ := registry
  simp only [register, get?]
  induction builtins with
  | nil => exact find?_cons builtin [] name
  | cons head rest ih =>
      rw [insertInto]
      split
      · exact find?_cons builtin (head :: rest) name
      split
      · next same =>
          rw [find?_cons, find?_cons, ← same]
          split <;> rfl
      · next different =>
          rw [find?_cons, find?_cons, ih]
          by_cases here : head.name = name
          · have other : ¬ builtin.name = name := fun there => different (there.trans here.symm)
            simp [here, other]
          · simp [here]

/-- What was registered last under a name is what the name stands for. -/
theorem get?_registerAll (registry : Registry) (builtins : List Builtin) (name : Text) :
    (registry.registerAll builtins).get? name =
      (builtins.reverse.find? (·.name = name)).or (registry.get? name) := by
  induction builtins generalizing registry with
  | nil => rfl
  | cons builtin builtins ih =>
      have once := find?_cons builtin [] name
      rw [registerAll, List.foldl_cons, ← registerAll, ih, get?_register, List.reverse_cons,
        List.find?_append, once, Option.or_assoc]
      split <;> rfl

theorem ascending_registerAll (ascending : registry.names.Pairwise (· < ·))
    (builtins : List Builtin) : (registry.registerAll builtins).names.Pairwise (· < ·) := by
  induction builtins generalizing registry with
  | nil => exact ascending
  | cons builtin builtins ih =>
      apply ih
      rw [names_register]
      exact NameSet.ascending_insertInto ascending

/-- In the order of their names, there is one built-in of each name. -/
theorem mem_builtins_iff (ascending : registry.names.Pairwise (· < ·)) {builtin : Builtin} :
    builtin ∈ registry.builtins ↔ registry.get? builtin.name = some builtin := by
  constructor
  · intro member
    obtain ⟨builtins⟩ := registry
    simp only [names, get?] at *
    induction builtins with
    | nil => cases member
    | cons head rest ih =>
        rw [List.map_cons, List.pairwise_cons] at ascending
        rw [find?_cons]
        rcases List.mem_cons.mp member with rfl | member
        · rw [if_pos rfl]
        · have below := ascending.1 builtin.name (List.mem_map_of_mem member)
          have other : ¬ head.name = builtin.name := fun same => List.lt_irrefl _ (same ▸ below)
          rw [if_neg other, ih ascending.2 member]
  · exact List.mem_of_find?_eq_some

/-- The manuals of the built-ins that were registered last under their names, in the order of
the names. -/
structure Lists (registrations : List Builtin) (manuals : List Manual) : Prop where
  ascending : (manuals.map (·.name)).Pairwise (· < ·)
  mem_iff : ∀ manual, manual ∈ manuals ↔ ∃ builtin,
    registrations.reverse.find? (·.name = manual.name) = some builtin ∧ builtin.toManual = manual

theorem lists_manuals (registrations : List Builtin) :
    Lists registrations (empty.registerAll registrations).manuals := by
  have ascending : (empty.registerAll registrations).names.Pairwise (· < ·) :=
    ascending_registerAll .nil registrations
  have last (name : Text) : (empty.registerAll registrations).get? name =
      registrations.reverse.find? (·.name = name) := by
    rw [get?_registerAll]
    exact Option.or_none
  refine ⟨by rwa [manuals, List.map_map], fun manual => ?_⟩
  rw [manuals, List.mem_map]
  constructor
  · intro listed
    obtain ⟨builtin, member, rfl⟩ := listed
    exact ⟨builtin, (last _).symm.trans ((mem_builtins_iff ascending).mp member), rfl⟩
  · intro registered
    obtain ⟨builtin, found, rfl⟩ := registered
    exact ⟨builtin, (mem_builtins_iff ascending).mpr ((last _).trans found), rfl⟩

end Registry

/-- Lines, each with its end. -/
def Text.ofLines (lines : List Text) : Text := lines.flatMap (· ++ ['\n'])

theorem Text.flatMap_newline_concat (line : Text) (lines : List Text) :
    line ++ lines.flatMap ('\n' :: ·) ++ ['\n'] = ofLines (line :: lines) := by
  induction lines generalizing line with
  | nil => simp [ofLines]
  | cons next lines ih =>
      have onward := ih next
      simp only [ofLines, List.flatMap_cons] at onward ⊢
      simp [← onward]

/-- What can be run. -/
structure Listing where
  manuals : List Manual
  /-- The commands of git, if they are listed too. -/
  gitNames : Option (List Text)

namespace Listing

def lines (listing : Listing) : List Text :=
  ["Built-in commands:".toList] ++
    (listing.manuals.map fun manual =>
      "    ".toList ++ manual.name ++ List.replicate (10 - manual.name.length) ' ' ++
        manual.description) ++
    ["Any other command runs as `git <command>`.".toList] ++
    match listing.gitNames with
    | none => []
    | some names => [[], "Git commands:".toList] ++ names.map ("    ".toList ++ ·)

def text (listing : Listing) : Text := Text.ofLines listing.lines

end Listing

def BuiltinOption.usageLine (option : BuiltinOption) : Text :=
  List.replicate 4 ' ' ++ option.name ++ List.replicate (12 - option.name.length) ' ' ++
    option.description

theorem BuiltinOption.newline_usageLine (option : BuiltinOption) :
    '\n' :: option.usageLine =
      "\n    ".toList ++ option.name.padRight 12 ++ option.description := by
  simp [usageLine, Text.padRight, List.replicate_succ]

/-- The name with the options in brackets, and below it each option with what it does. -/
def Manual.usageLines (manual : Manual) : List Text :=
  ("usage: ".toList ++ manual.name ++
      manual.options.flatMap fun option => " [".toList ++ option.name ++ [']']) ::
    manual.options.map BuiltinOption.usageLine

theorem Manual.usage_concat (manual : Manual) :
    manual.usage ++ ['\n'] = Text.ofLines manual.usageLines := by
  have below : (manual.options.flatMap fun option =>
      "\n    ".toList ++ option.name.padRight 12 ++ option.description) =
        (manual.options.map BuiltinOption.usageLine).flatMap ('\n' :: ·) := by
    simp only [List.flatMap_map, BuiltinOption.newline_usageLine]
  exact (congrArg (_ ++ · ++ ['\n']) below).trans (Text.flatMap_newline_concat _ _)

theorem Manual.complaint_eq (manual : Manual) (unknown : List Text) :
    manual.complaint unknown = manual.name ++ ": unexpected argument(s): ".toList ++
      [' '].intercalate unknown ++ ['\n'] ++ Text.ofLines manual.usageLines := by
  simp only [complaint, Text.join_eq_intercalate, ← manual.usage_concat, List.append_assoc]

namespace Builtin

theorem flatten_listing (occasion : Occasion) :
    (listing occasion).flatten = Listing.text ⟨occasion.manuals,
      if allFlag ∈ occasion.arguments then some occasion.gitNames else none⟩ := by
  rw [Listing.text, Text.ofLines, List.flatMap_def]
  by_cases all : allFlag ∈ occasion.arguments <;>
    simp [listing, Listing.lines, Text.padRight, all, Function.comp_def]

/-- As much of what is printed arrives as fits, and the status says whether that is all. -/
theorem print_limited (texts : List Text) (outRoom errRoom : Nat) :
    let limited := print texts ⟨.bounded outRoom, .bounded errRoom⟩
    let free := (print texts .unbounded).2.out.written
    free = Utf8.encode texts.flatten ∧ limited.2.err.written = [] ∧
      limited.2.out.written = free.take outRoom ∧
      limited.1 = .status (if free.length ≤ outRoom then 0 else 1) := by
  simp [print, Sink.writeAll_eq_write, Sink.write, Sink.writeBytes, Sink.bounded,
    Streams.unbounded, Sink.unbounded, writtenStatus]

theorem unknown_eq (manual : Manual) (arguments : List Text) :
    manual.unknown arguments = arguments.filter (· ∉ manual.optionNames) := by
  simp [Manual.unknown]

/-- The only option of `:exit` is to ask for its usage. -/
theorem eq_nil_of_exit {arguments : List Text} (known : exitManual.unknown arguments = [])
    (unasked : helpFlag ∉ arguments) : arguments = [] := by
  have options : exitManual.optionNames = [helpFlag] := rfl
  rw [unknown_eq, options, List.filter_eq_nil_iff] at known
  apply List.eq_nil_iff_forall_not_mem.mpr
  intro argument member
  have option : argument = helpFlag := by
    simpa only [List.mem_singleton, decide_eq_true_eq, Decidable.not_not] using
      known argument member
  exact unasked (option ▸ member)

/-- What a standard built-in does on an occasion, whatever the streams. -/
inductive Answers (builtin : Builtin) (occasion : Occasion) : Prop where
  | refuses (unknown : builtin.unknown occasion.arguments ≠ [])
      (run : builtin.run occasion =
        refuse builtin.toManual (builtin.unknown occasion.arguments))
  | helps (known : builtin.unknown occasion.arguments = []) (asked : helpFlag ∈ occasion.arguments)
      (run : builtin.run occasion = print [builtin.usage ++ ['\n']])
  | lists (known : builtin.unknown occasion.arguments = [])
      (unasked : helpFlag ∉ occasion.arguments) (named : builtin.name = ":help".toList)
      (run : builtin.run occasion = print (listing occasion))
  | leaves (known : builtin.unknown occasion.arguments = []) (bare : occasion.arguments = [])
      (named : builtin.name = ":exit".toList)
      (run : builtin.run occasion = fun streams => (.exit, streams))

theorem answers_exit (occasion : Occasion) : Answers exit occasion := by
  cases unknown : exitManual.unknown occasion.arguments with
  | cons argument more =>
      refine .refuses (unknown ▸ List.cons_ne_nil argument more) ?_
      funext streams
      simp [exit, unknown]
  | nil =>
      by_cases asked : helpFlag ∈ occasion.arguments
      · refine .helps unknown asked ?_
        funext streams
        simp [exit, unknown, asked]
      · refine .leaves unknown (eq_nil_of_exit unknown asked) rfl ?_
        funext streams
        simp [exit, unknown, asked]

theorem answers_help (occasion : Occasion) : Answers help occasion := by
  cases unknown : helpManual.unknown occasion.arguments with
  | cons argument more =>
      refine .refuses (unknown ▸ List.cons_ne_nil argument more) ?_
      funext streams
      simp [help, unknown]
  | nil =>
      by_cases asked : helpFlag ∈ occasion.arguments
      · refine .helps unknown asked ?_
        funext streams
        simp [help, unknown, asked]
      · refine .lists unknown asked rfl ?_
        funext streams
        simp [help, unknown, asked]

theorem answers {builtin : Builtin} (standard : builtin ∈ [exit, help]) (occasion : Occasion) :
    Answers builtin occasion := by
  rcases List.mem_cons.mp standard with rfl | standard
  · exact answers_exit occasion
  · obtain rfl := List.mem_singleton.mp standard
    exact answers_help occasion

/-- Whatever a standard built-in is given, and whatever fits, it refuses the arguments that are
none of its options, or prints what they ask for as far as that fits, and only `:exit` without
arguments leaves. -/
theorem standard_builtins_heed_their_arguments {builtin : Builtin}
    (standard : builtin ∈ [exit, help]) (registrations : List Builtin) (catalog : Catalog)
    (git : Git.Backend) (arguments : List Text) (outRoom errRoom : Nat) :
    let tools : Tools := ⟨catalog, Registry.empty.registerAll registrations, git⟩
    let limited := builtin.run (tools.occasion arguments) ⟨.bounded outRoom, .bounded errRoom⟩
    let free := (builtin.run (tools.occasion arguments) .unbounded).2.out.written
    let unknown := arguments.filter (· ∉ builtin.options.map (·.name))
    (unknown ≠ [] →
      let message := builtin.name ++ ": unexpected argument(s): ".toList ++
        [' '].intercalate unknown ++ ['\n'] ++ Text.ofLines builtin.usageLines
      limited.1 = .status 2 ∧ limited.2.out.written = [] ∧
        limited.2.err.written = (Utf8.encode message).take errRoom) ∧
    (unknown = [] →
      limited.2.err.written = [] ∧
      limited.2.out.written = free.take outRoom ∧
      (limited.1 = .exit → free = []) ∧
      (limited.1 ≠ .exit → limited.1 = .status (if free.length ≤ outRoom then 0 else 1)) ∧
      ("--help".toList ∈ arguments → free = Utf8.encode (Text.ofLines builtin.usageLines)) ∧
      ("--help".toList ∉ arguments → builtin.name = ":help".toList → ∃ manuals names,
        Registry.Lists registrations manuals ∧
        names.Pairwise (· < ·) ∧ (∀ name, name ∈ names ↔ catalog.isGit name = true) ∧
        free = Utf8.encode (Listing.text
          ⟨manuals, if "--all".toList ∈ arguments then some names else none⟩))) ∧
    (limited.1 = .exit ↔ builtin.name = ":exit".toList ∧ arguments = []) := by
  intro tools limited free unknown
  have same : unknown = builtin.unknown arguments := (unknown_eq builtin.toManual arguments).symm
  have different : ":help".toList ≠ ":exit".toList := by decide
  cases answers standard (tools.occasion arguments) with
  | refuses some run =>
      have refused : limited = refuse builtin.toManual unknown
          ⟨.bounded outRoom, .bounded errRoom⟩ := by
        rw [same]
        exact congrFun run _
      have message := builtin.complaint_eq unknown
      have given : arguments ≠ [] := fun none => some (congrArg builtin.unknown none)
      rw [refused]
      refine ⟨fun _ => ⟨rfl, rfl, ?_⟩, fun none => absurd (same.symm.trans none) some, ?_⟩
      · rw [← message]
        rfl
      constructor
      · exact nofun
      · exact fun leaves => absurd leaves.2 given
  | helps known asked run =>
      obtain ⟨text, err, out, status⟩ :=
        run ▸ print_limited [builtin.usage ++ ['\n']] outRoom errRoom
      have stays : limited.1 ≠ .exit := by rw [status]; nofun
      have usage : free = Utf8.encode (Text.ofLines builtin.usageLines) := by
        rw [← builtin.usage_concat]
        exact text.trans (congrArg _ List.flatten_singleton)
      refine ⟨fun some => absurd (same.trans known) some, fun _ => ?_, ?_⟩
      · exact ⟨err, out, fun exits => absurd exits stays, fun _ => status, fun _ => usage,
          fun unasked => absurd asked unasked⟩
      · constructor
        · exact fun exits => absurd exits stays
        · exact fun leaves => absurd leaves.2 (List.ne_nil_of_mem asked)
  | lists known unasked named run =>
      obtain ⟨text, err, out, status⟩ :=
        run ▸ print_limited (listing (tools.occasion arguments)) outRoom errRoom
      have listed : free = Utf8.encode (Listing.text ⟨tools.registry.manuals,
          if allFlag ∈ arguments then some catalog.git.toList else none⟩) :=
        text.trans (congrArg _ (flatten_listing (tools.occasion arguments)))
      have stays : limited.1 ≠ .exit := by rw [status]; nofun
      have gitNames (name : Text) : name ∈ catalog.git.toList ↔ catalog.isGit name = true :=
        Catalog.isGit_iff.symm
      refine ⟨fun some => absurd (same.trans known) some, fun _ => ?_, ?_⟩
      · exact ⟨err, out, fun exits => absurd exits stays, fun _ => status,
          fun asked => absurd asked unasked, fun _ _ => ⟨_, _,
            Registry.lists_manuals registrations, catalog.git.ascending, gitNames, listed⟩⟩
      · constructor
        · exact fun exits => absurd exits stays
        · exact fun leaves => absurd (named.symm.trans leaves.1) different
  | leaves known bare named run =>
      have left (streams : Streams) :
          builtin.run (tools.occasion arguments) streams = (.exit, streams) := congrFun run streams
      have free_eq : free = [] := by simp only [free, left]; rfl
      have limited_eq : limited = (.exit, ⟨.bounded outRoom, .bounded errRoom⟩) := left _
      have bare : arguments = [] := bare
      have unasked : helpFlag ∉ arguments := bare ▸ List.not_mem_nil
      rw [limited_eq, free_eq]
      refine ⟨fun some => absurd (same.trans known) some, fun _ => ?_, ?_⟩
      · exact ⟨rfl, List.take_nil.symm, fun _ => rfl, fun stays => absurd rfl stays,
          fun asked => absurd asked unasked,
          fun _ other => absurd (other.symm.trans named) different⟩
      · exact ⟨fun _ => ⟨named, bare⟩, fun _ => rfl⟩

theorem answers_arrive_as_far_as_there_is_room :
    let tools : Tools :=
      ⟨.ofLists [] [['é']], Registry.empty.registerAll [help, exit], .missing [] []⟩
    let listed := help.run (tools.occasion [allFlag, allFlag]) ⟨.bounded 149, .bounded 0⟩
    let asked := help.run (tools.occasion [helpFlag]) ⟨.bounded 999, .bounded 0⟩
    let refused := exit.run (tools.occasion [['é'], helpFlag]) ⟨.bounded 0, .bounded 999⟩
    help ∈ [exit, help] ∧ [allFlag, allFlag].filter (· ∉ help.options.map (·.name)) = [] ∧
    listed.1 = .status 1 ∧ listed.2.out.written.drop 144 = [0x20, 0x20, 0x20, 0x20, 0xC3] ∧
    [helpFlag].filter (· ∉ help.options.map (·.name)) = [] ∧ asked.1 = .status 0 ∧
    asked.2.out.written = Utf8.encode (Text.ofLines (["usage: :help [--all] [--help]",
      "    --all       also list git commands", "    --help      show usage"].map String.toList)) ∧
    exit ∈ [exit, help] ∧ [['é'], helpFlag].filter (· ∉ exit.options.map (·.name)) ≠ [] ∧
    refused.1 = .status 2 ∧
    refused.2.err.written = Utf8.encode (Text.ofLines ([":exit: unexpected argument(s): é",
      "usage: :exit [--help]", "    --help      show usage instead of exiting"].map
        String.toList)) := by
  intro tools listed asked refused
  have helps : help ∈ [exit, help] := .tail _ (.head _)
  have exits : exit ∈ [exit, help] := .head _
  have known : [allFlag, allFlag].filter (· ∉ help.options.map (·.name)) = [] := by decide
  have known' : [helpFlag].filter (· ∉ help.options.map (·.name)) = [] := by decide
  have some : [['é'], helpFlag].filter (· ∉ exit.options.map (·.name)) ≠ [] := by decide
  obtain ⟨-, printed, -⟩ := standard_builtins_heed_their_arguments helps [help, exit]
    (.ofLists [] [['é']]) (.missing [] []) [allFlag, allFlag] 149 0
  obtain ⟨-, out, -, status, -⟩ := printed known
  obtain ⟨-, printed', -⟩ := standard_builtins_heed_their_arguments helps [help, exit]
    (.ofLists [] [['é']]) (.missing [] []) [helpFlag] 999 0
  obtain ⟨-, out', -, status', usage, -⟩ := printed' known'
  obtain ⟨refuses, -⟩ := standard_builtins_heed_their_arguments exits [help, exit]
    (.ofLists [] [['é']]) (.missing [] []) [['é'], helpFlag] 0 999
  obtain ⟨refusal, -, err⟩ := refuses some
  refine ⟨helps, known, ?_, ?_, known', ?_, ?_, exits, some, refusal, ?_⟩
  · exact (status (by decide +kernel)).trans (by decide +kernel)
  · exact (congrArg _ out).trans (by decide +kernel)
  · exact (status' (by decide +kernel)).trans (by decide +kernel)
  · rw [out', usage (.head _)]
    decide +kernel
  · exact err.trans (by decide +kernel)

end Builtin

end LineShell
