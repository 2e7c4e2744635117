/-!
# QueryDigest.CommandLine.Usage

What the program says of its own use.
-/

namespace QueryDigest
namespace CommandLine

/-- The usage, line by line. -/
def usageLines : List String :=
  ["Usage: unparam [options] [FILE]",
   "",
   "Normalize SQL: literals become placeholders, comments are removed.",
   "Reads FILE, or standard input when FILE is absent or `-`.",
   "",
   "Options:",
   "  --config=<path>               Load options from a JSON file",
   "  --ansi                        Treat \"...\" as identifiers, not strings",
   "  --identifier-delimiter=<c>    Delimiter written around identifiers (default `)",
   "  --keep-whitespace             Keep whitespace runs instead of collapsing them",
   "  --quote-strings               Write string placeholders as '?'",
   "  --reduce-enums                Collapse IN (?, ?, ...) and FIELD lists",
   "  --no-throw                    Print syntax errors in place of the query",
   "  --quiet                       Do not log syntax errors",
   "  --lines                       Normalize each non-empty line separately",
   "  --count                       Like --lines, then count identical queries",
   "  -h, --help                    Show this message",
   "",
   "Set RUST_LOG to adjust log output (default: warn)."]

/-- Where a refused command line points to. -/
def usageHint : String :=
  "Run `unparam --help` for usage."

end CommandLine
end QueryDigest
