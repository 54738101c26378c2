import LineGrammar.Completion.Completer
import LineGrammar.Highlight.Highlighter
import LineGrammar.Text.Record
import LineGrammar.Validation.Validator

/-! Descriptions of grammars and of the components built on them, for developers. Names that are
registered with a component are listed in alphabetical order. -/

namespace LineGrammar

open Text

def describeNames {α : Type} (registry : Registry α) : String :=
  describeList (registry.names.map quote)

def Grammar.inspect (grammar : Grammar) : String :=
  describeRecord "CompiledGrammar"
    [("root", quote grammar.root.render), ("exact", quote grammar.whole.source),
      ("prefix_patterns", toString grammar.beginnings.length),
      ("groups", describeList (grammar.groupNames.toList.map quote)),
      ("escape_funcs", describeNames grammar.escapes),
      ("unescape_funcs", describeNames grammar.unescapes)] false

def WordList.inspect (list : WordList) : String :=
  describeRecord "WordCompleter"
    [("words", describeList (list.words.map quote)),
      ("meta", describePairs (list.notes.map fun (word, note) => (quote word, quote note))),
      ("ignore_case", describeBool list.ignoreCase),
      ("whole_word", describeBool list.wholeWord)] false

def Completer.inspect : Completer → String
  | .words list => list.inspect
  | .fields grammar completers =>
    describeRecord "GrammarCompleter"
      [("grammar", quote grammar.whole.source), ("completers", describeNames completers)] false
  | .source _ => describeRecord "Completer" [] true

def Highlighter.inspect : Highlighter → String
  | .plain style => describeRecord "SimpleLexer" [("style", quote style)] false
  | .fields grammar defaultStyle highlighters =>
    describeRecord "GrammarLexer"
      [("grammar", quote grammar.whole.source), ("default_style", quote defaultStyle),
        ("lexers", describeNames highlighters)] false
  | .source _ _ => describeRecord "Lexer" [] true

def Validator.inspect : Validator → String
  | .test _ message atEnd =>
    describeRecord "FnValidator"
      [("message", quote message), ("move_cursor_to_end", describeBool atEnd)] true
  | .fields grammar validators =>
    describeRecord "GrammarValidator"
      [("grammar", quote grammar.whole.source), ("validators", describeNames validators)] false
  | .source _ => describeRecord "Validator" [] true

end LineGrammar
