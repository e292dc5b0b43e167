import AgentScript.Grammar.File
import AgentScript.Reading.Tokens

/-!
# Documents

A document is a text with everything that can be read from it: its tokens, its tree, and
the errors of both readings, which are kept apart.
-/
namespace AgentScript

structure Document where
  tokens : List Token
  lexicalErrors : List LexicalError
  tree : Option SourceFile
  parseErrors : List ParseError
deriving Inhabited

namespace Document

/-- Reads a text; the label of the options is attached to the errors of both kinds. -/
def ofSource (source : String) (options : ParseOptions) : Document :=
  let text := TokenizedText.ofLabelledSource source options.file
  let file := ParsedFile.ofTokens text.tokens options
  ⟨text.tokens, text.errors, file.tree, file.errors⟩

def hasErrors (d : Document) : Bool := !d.lexicalErrors.isEmpty || !d.parseErrors.isEmpty

end Document

end AgentScript
