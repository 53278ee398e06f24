/-
How the program is used, for people.

* `usageLines` — all commands with their options;
* `UsageFault.message` — what is wrong with a command line.
-/
import Mailroom.CommandLine.Grammar

namespace Mailroom.CommandLine

/-- How an option is written. -/
def OptionRule.usage (o : OptionRule) : String :=
  match o.operand with
  | .nothing => " [--" ++ o.name ++ "]"
  | _ => " [--" ++ o.name ++ " <" ++ o.name.toUpper ++ ">]"

/-- How a command is written. -/
def CommandRule.usage (c : CommandRule) : String :=
  "  " ++ c.name ++ (if c.takesId then " <ID>" else "") ++
    String.join (c.options.map OptionRule.usage)

/-- All commands with their options. -/
def usageLines : List String :=
  ["Usage: agent-mail" ++ agentRule.usage ++ " <COMMAND>", "", "Commands:"] ++
    commandRules.map CommandRule.usage

/-- What is wrong with a command line. -/
def UsageFault.message : UsageFault → String
  | unknownArgument => "unexpected argument"
  | unknownCommand => "unrecognized command"
  | noCommand | nothingGiven => "a command is required"
  | missingId => "the id of a message is required"
  | missingValue => "an option lacks its value"
  | badValue => "an option has an invalid value"
  | valueNotTaken => "an option takes no value"
  | repeated => "an option is given more than once"
  | helpWanted => "help"
  | versionWanted => "version"

end Mailroom.CommandLine
