import LoxLexing.Prompt.Completion
import LoxLexing.Prompt.Continuation
import LoxLexing.Prompt.History
import LoxLexing.Prompt.Session

/-!
# Typing lines at a terminal

At a terminal a line is edited before it is entered. The keys that matter are those that change the text:
a character is added at its end, Tab adds the first completion, Ctrl-P replaces it by the previous line of
the history. Enter ends the line if the text is complete, and else adds a line end to it. Ctrl-C gives the
line up, and Ctrl-D on an empty text ends the input.

Each prompt is answered by one run of keys. When none is left, Ctrl-D is typed. Every line that is entered
joins the history before the next prompt.
-/

namespace LoxLexing

/-- A key. -/
inductive Key where
  | enter
  | interrupt
  | endOfInput
  | complete
  | previous
  | character (c : Char)
deriving DecidableEq, Repr

/-- The key that sends a character. -/
def Key.ofChar (c : Char) : Key :=
  if c = '\r' then enter
  else if c = '\x03' then interrupt
  else if c = '\x04' then endOfInput
  else if c = '\t' then complete
  else if c = '\x10' then previous
  else character c

/-! ## Editing a line -/

/-- A line that is being edited, with the cursor at its end. -/
structure Draft where
  text : String := ""
  /-- How far back in the history the text was recalled from; zero if it is new. -/
  back : Nat := 0
deriving DecidableEq, Repr, Inhabited

namespace Draft

/-- The draft with the first completion of its last word, if it has one. -/
def complete (draft : Draft) : Draft :=
  match (Cursor.mk draft.text.toList []).candidates with
  | [] => draft
  | candidate :: _ => { draft with text := draft.text ++ candidate.addition }

/-- The draft one line further back in the history, if there is one. -/
def previous (history : History) (draft : Draft) : Draft :=
  match history.earlier? (draft.back + 1) with
  | some text => ⟨text, draft.back + 1⟩
  | none => draft

end Draft

/-- What a prompt gives. -/
inductive Prompted where
  | reading (reading : Reading)
  | endOfInput
deriving DecidableEq, Repr

/-- Edits a draft by some keys, until one of them ends the prompt. Ctrl-D does nothing on a text that is
not empty, and ends the prompt when the keys are used up. -/
def Draft.edit (history : History) (draft : Draft) : List Key → Prompted
  | [] => .endOfInput
  | .enter :: keys =>
    if isComplete draft.text then .reading (.line draft.text)
    else edit history { draft with text := draft.text.push '\n' } keys
  | .interrupt :: _ => .reading .interrupted
  | .endOfInput :: keys =>
    if draft.text.isEmpty then .endOfInput else edit history draft keys
  | .complete :: keys => edit history draft.complete keys
  | .previous :: keys => edit history (draft.previous history) keys
  | .character c :: keys => edit history { draft with text := draft.text.push c } keys

/-! ## A whole input -/

/-- The history after a reading: an entered line joins it. -/
def History.after (history : History) : Reading → History
  | .line text => history.add text
  | .interrupted => history

/-- All that is typed, one run of keys for each prompt. -/
def typedReadings (history : History) : List (List Key) → List Reading
  | [] => []
  | keys :: runs =>
    match Draft.edit history {} keys with
    | .endOfInput => []
    | .reading reading => reading :: typedReadings (history.after reading) runs

/-- A session at a terminal: the exchange, and the history at its end. The history of a session is that of
the lines which it answered. -/
def Session.atTerminal (read : TextReader) (history : History) (runs : List (List Key)) :
    Exchange × History :=
  let exchange := converse read {} ⟨typedReadings history runs, .endOfInput⟩
  (exchange, exchange.answered.foldl History.after history)

end LoxLexing
