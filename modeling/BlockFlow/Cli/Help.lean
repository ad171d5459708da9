import BlockFlow.Cli.Command

/-! The help texts. -/

namespace BlockFlow.Cli

/-- Lines of text, each with its line feed. -/
def linesText (lines : List String) : String := String.join (lines.map (· ++ "\n"))

def usageLines : Option Command → List String
  | none => ["usage: flowc [-h] \x7bcompile,canonicalize,equals\x7d ..."]
  | some .compile =>
    ["usage: flowc compile [-h] --in INPUT [--out OUTPUT] [--no-link]",
      "                     [--id-strategy \x7bsequential,uuid\x7d] [--validate] [--report]"]
  | some .canonicalize =>
    ["usage: flowc canonicalize [-h] --in INPUT [--out OUTPUT] [--list] [--strict]",
      "                          [--report]"]
  | some .equals => ["usage: flowc equals [-h] --left LEFT --right RIGHT [--list]"]

/-- What a help text says below the usage. -/
def detailLines : Option Command → List String
  | none =>
    ["",
      "Block Flow Compiler CLI",
      "",
      "positional arguments:",
      "  \x7bcompile,canonicalize,equals\x7d",
      "                        Compiler command",
      "    compile             Compile a source AST into a Compiled Flow Graph",
      "    canonicalize        Canonicalize a Compiled Flow Graph",
      "    equals              Check two graphs for structural equality",
      "",
      "options:",
      "  -h, --help            show this help message and exit",
      "",
      "Examples:",
      "  # Compile a source AST into a linked graph",
      "  flowc compile --in ast.json --out graph.json --validate",
      "",
      "  # Canonicalize a compiled graph",
      "  flowc canonicalize --in graph.json --out canonical.json",
      "",
      "  # Compare two sets of compiled graphs regardless of order",
      "  flowc equals --left expected.json --right actual.json --list",
      "        "]
  | some .compile =>
    ["",
      "options:",
      "  -h, --help            show this help message and exit",
      "  --in INPUT            Input source AST file",
      "  --out OUTPUT          Output graph file (stdout if omitted)",
      "  --no-link             Emit the unlinked block tree",
      "  --id-strategy \x7bsequential,uuid\x7d",
      "                        Block id strategy",
      "  --validate            Validate the output against the graph schema",
      "  --report              Wrap the output with the compiler report"]
  | some .canonicalize =>
    ["",
      "options:",
      "  -h, --help    show this help message and exit",
      "  --in INPUT    Input graph file",
      "  --out OUTPUT  Output file (stdout if omitted)",
      "  --list        Input is a JSON array of graphs",
      "  --strict      Fail on unknown operations",
      "  --report      Wrap the output with the report"]
  | some .equals =>
    ["",
      "options:",
      "  -h, --help     show this help message and exit",
      "  --left LEFT    First graph file",
      "  --right RIGHT  Second graph file",
      "  --list         Inputs are JSON arrays of graphs"]

def usage (about : Option Command) : String := linesText (usageLines about)

def helpText (about : Option Command) : String :=
  linesText (usageLines about ++ detailLines about)

/-- The program, or one of its commands, as errors name it. -/
def programName : Option Command → String
  | none => "flowc"
  | some c => "flowc " ++ c.name

/-- What is said of a wrong command line. -/
def misuseText (about : Option Command) (e : UsageError) : String :=
  usage about ++ programName about ++ ": error: " ++ e.message ++ "\n"

end BlockFlow.Cli
