import Mathlib.Data.UInt
import Snowlake.Parse.LexerState

/-! # The scanner that flex made

`src/parser/precompiled/lex.yy.cc`: the tables of `lexer.ll`, the loop that finds
the next match in a buffer that `yy_scan_string` made, what happens at the end of
the buffer, and the actions.  A table that is read outside, a loop that does not
end and the actions that no text without zeros leads to are `none`.
-/

namespace Snowlake

namespace LexYy

/-! ## Tables -/

def YY_END_OF_BUFFER : ℕ := 46

/-- The state in which the automaton jams. -/
def jam : ℕ := 222

def yy_accept : List ℕ := [
  0, 14, 14, 46, 44, 42, 43, 44, 44, 44, 38, 39, 30, 28, 14, 16, 18, 24, 20, 12, 32, 33, 12, 12, 12, 12, 12,
  12, 35, 36, 42, 43, 22, 0, 0, 0, 0, 0, 0, 0, 0, 0, 14, 0, 41, 14, 26, 12, 12, 12, 12, 12, 12, 12, 12, 0,
  0, 0, 0, 0, 0, 0, 0, 0, 0, 0, 0, 0, 14, 12, 12, 12, 12, 12, 12, 12, 12, 12, 0, 0, 0, 27, 0, 0, 0, 0, 0, 0,
  0, 0, 0, 0, 0, 12, 12, 12, 12, 12, 12, 12, 12, 12, 0, 0, 0, 0, 0, 0, 0, 0, 0, 0, 0, 0, 0, 0, 12, 12, 12,
  2, 12, 12, 12, 12, 7, 15, 29, 0, 0, 19, 0, 0, 0, 0, 0, 0, 0, 0, 0, 12, 12, 12, 12, 12, 12, 12, 0, 0, 0, 0,
  0, 0, 0, 0, 0, 0, 0, 12, 12, 6, 12, 8, 12, 12, 0, 0, 0, 13, 0, 0, 0, 0, 0, 0, 0, 12, 12, 12, 9, 12, 0, 40,
  0, 1, 0, 0, 0, 0, 0, 0, 5, 12, 3, 12, 0, 0, 23, 0, 21, 0, 17, 0, 12, 12, 0, 0, 0, 0, 0, 4, 10, 0, 11, 0,
  37, 0, 34, 25, 0, 0, 0, 31, 0]

def yy_ec : List ℕ := [
  0, 1, 1, 1, 1, 1, 1, 1, 1, 2, 3, 1, 1, 1, 1, 1, 1, 1, 1, 1, 1, 1, 1, 1, 1, 1, 1, 1, 1, 1, 1, 1, 2, 4, 1,
  5, 1, 1, 1, 6, 7, 8, 1, 1, 9, 10, 11, 1, 12, 13, 13, 13, 13, 13, 13, 13, 13, 13, 14, 15, 16, 17, 1, 1, 1,
  18, 18, 18, 18, 18, 18, 18, 18, 18, 18, 18, 18, 18, 18, 18, 18, 18, 18, 18, 18, 18, 18, 18, 18, 18, 18,
  19, 1, 20, 1, 21, 1, 22, 23, 24, 25, 26, 27, 28, 29, 30, 18, 31, 32, 33, 34, 35, 36, 37, 38, 39, 40, 41,
  42, 43, 18, 44, 18, 45, 1, 46, 1, 1, 1, 1, 1, 1, 1, 1, 1, 1, 1, 1, 1, 1, 1, 1, 1, 1, 1, 1, 1, 1, 1, 1, 1,
  1, 1, 1, 1, 1, 1, 1, 1, 1, 1, 1, 1, 1, 1, 1, 1, 1, 1, 1, 1, 1, 1, 1, 1, 1, 1, 1, 1, 1, 1, 1, 1, 1, 1, 1,
  1, 1, 1, 1, 1, 1, 1, 1, 1, 1, 1, 1, 1, 1, 1, 1, 1, 1, 1, 1, 1, 1, 1, 1, 1, 1, 1, 1, 1, 1, 1, 1, 1, 1, 1,
  1, 1, 1, 1, 1, 1, 1, 1, 1, 1, 1, 1, 1, 1, 1, 1, 1, 1, 1, 1, 1, 1, 1, 1, 1, 1, 1, 1, 1, 1, 1, 1, 1, 1, 1]

def yy_meta : List ℕ := [
  0, 1, 1, 1, 1, 1, 1, 1, 1, 1, 1, 1, 2, 2, 1, 1, 1, 1, 2, 1, 1, 2, 2, 2, 2, 2, 2, 2, 2, 2, 2, 2, 2, 2, 2,
  2, 2, 2, 2, 2, 2, 2, 2, 2, 2, 1, 1]

def yy_base : List ℕ := [
  0, 0, 0, 249, 250, 246, 244, 229, 23, 46, 250, 250, 250, 234, 38, 250, 250, 227, 250, 0, 250, 250, 205,
  208, 26, 207, 202, 210, 250, 250, 236, 234, 250, 25, 201, 31, 36, 209, 208, 198, 210, 39, 61, 225, 250,
  59, 250, 0, 202, 187, 193, 192, 42, 49, 196, 45, 187, 184, 191, 181, 195, 180, 175, 179, 58, 179, 183,
  193, 69, 173, 183, 189, 170, 184, 187, 175, 171, 174, 170, 171, 171, 250, 172, 179, 166, 173, 155, 158,
  163, 174, 168, 163, 151, 158, 152, 167, 152, 149, 152, 155, 149, 157, 148, 159, 136, 143, 146, 137, 148,
  140, 153, 138, 146, 137, 146, 131, 142, 132, 134, 0, 139, 136, 124, 123, 0, 250, 250, 140, 121, 250, 129,
  132, 119, 116, 117, 117, 113, 117, 125, 116, 115, 109, 113, 120, 119, 114, 120, 112, 114, 102, 114, 109,
  111, 95, 106, 102, 112, 92, 98, 0, 106, 0, 90, 88, 89, 87, 95, 250, 85, 101, 101, 99, 94, 84, 95, 78, 90,
  89, 0, 84, 91, 250, 86, 250, 77, 70, 77, 69, 73, 68, 0, 71, 0, 69, 79, 64, 250, 72, 250, 74, 250, 77, 57,
  62, 69, 55, 71, 53, 67, 0, 0, 51, 250, 55, 250, 57, 250, 250, 61, 46, 46, 250, 250, 81]

def yy_def : List ℕ := [
  0, 222, 1, 222, 222, 222, 222, 222, 222, 222, 222, 222, 222, 222, 222, 222, 222, 222, 222, 223, 222, 222,
  223, 223, 223, 223, 223, 223, 222, 222, 222, 222, 222, 222, 222, 222, 222, 222, 222, 222, 222, 222, 222,
  222, 222, 222, 222, 223, 223, 223, 223, 223, 223, 223, 223, 222, 222, 222, 222, 222, 222, 222, 222, 222,
  222, 222, 222, 222, 222, 223, 223, 223, 223, 223, 223, 223, 223, 223, 222, 222, 222, 222, 222, 222, 222,
  222, 222, 222, 222, 222, 222, 222, 222, 223, 223, 223, 223, 223, 223, 223, 223, 223, 222, 222, 222, 222,
  222, 222, 222, 222, 222, 222, 222, 222, 222, 222, 223, 223, 223, 223, 223, 223, 223, 223, 223, 222, 222,
  222, 222, 222, 222, 222, 222, 222, 222, 222, 222, 222, 222, 223, 223, 223, 223, 223, 223, 223, 222, 222,
  222, 222, 222, 222, 222, 222, 222, 222, 222, 223, 223, 223, 223, 223, 223, 223, 222, 222, 222, 222, 222,
  222, 222, 222, 222, 222, 222, 223, 223, 223, 223, 223, 222, 222, 222, 222, 222, 222, 222, 222, 222, 222,
  223, 223, 223, 223, 222, 222, 222, 222, 222, 222, 222, 222, 223, 223, 222, 222, 222, 222, 222, 223, 223,
  222, 222, 222, 222, 222, 222, 222, 222, 222, 222, 222, 0, 222]

def yy_nxt : List ℕ := [
  0, 4, 5, 6, 7, 8, 9, 10, 11, 12, 4, 13, 14, 14, 15, 16, 17, 18, 19, 20, 21, 19, 22, 19, 19, 19, 23, 19,
  24, 19, 25, 19, 19, 19, 19, 19, 26, 19, 19, 19, 19, 19, 19, 27, 19, 28, 29, 33, 34, 35, 45, 45, 42, 36,
  37, 38, 43, 39, 50, 40, 55, 60, 41, 58, 51, 66, 56, 42, 59, 73, 61, 45, 45, 45, 45, 75, 67, 78, 79, 88,
  74, 45, 45, 47, 76, 221, 220, 219, 218, 217, 216, 215, 214, 213, 212, 211, 210, 209, 89, 208, 207, 206,
  205, 204, 203, 202, 201, 200, 199, 198, 197, 196, 195, 194, 193, 192, 191, 190, 189, 188, 187, 186, 185,
  184, 183, 182, 181, 180, 179, 178, 177, 176, 175, 174, 173, 172, 171, 170, 169, 168, 167, 166, 165, 164,
  163, 162, 161, 160, 159, 158, 157, 156, 155, 154, 153, 152, 151, 150, 149, 148, 147, 146, 145, 144, 143,
  142, 141, 140, 139, 138, 137, 136, 135, 134, 133, 132, 131, 130, 129, 128, 127, 126, 125, 124, 123, 122,
  121, 120, 119, 118, 117, 116, 115, 114, 113, 112, 111, 110, 109, 108, 107, 106, 105, 104, 103, 102, 101,
  100, 99, 98, 97, 96, 95, 94, 93, 92, 91, 90, 87, 86, 85, 84, 83, 82, 81, 80, 77, 72, 71, 70, 69, 68, 65,
  64, 63, 62, 57, 31, 30, 54, 53, 52, 49, 48, 46, 44, 32, 31, 30, 222, 3, 222, 222, 222, 222, 222, 222, 222,
  222, 222, 222, 222, 222, 222, 222, 222, 222, 222, 222, 222, 222, 222, 222, 222, 222, 222, 222, 222, 222,
  222, 222, 222, 222, 222, 222, 222, 222, 222, 222, 222, 222, 222, 222, 222, 222, 222, 222]

def yy_chk : List ℕ := [
  0, 1, 1, 1, 1, 1, 1, 1, 1, 1, 1, 1, 1, 1, 1, 1, 1, 1, 1, 1, 1, 1, 1, 1, 1, 1, 1, 1, 1, 1, 1, 1, 1, 1, 1,
  1, 1, 1, 1, 1, 1, 1, 1, 1, 1, 1, 1, 8, 8, 8, 14, 14, 9, 8, 8, 8, 9, 8, 24, 8, 33, 36, 8, 35, 24, 41, 33,
  42, 35, 52, 36, 45, 45, 42, 42, 53, 41, 55, 55, 64, 52, 68, 68, 223, 53, 220, 219, 218, 215, 213, 211,
  208, 207, 206, 205, 204, 203, 202, 64, 201, 199, 197, 195, 194, 193, 191, 189, 188, 187, 186, 185, 184,
  182, 180, 179, 177, 176, 175, 174, 173, 172, 171, 170, 169, 168, 166, 165, 164, 163, 162, 160, 158, 157,
  156, 155, 154, 153, 152, 151, 150, 149, 148, 147, 146, 145, 144, 143, 142, 141, 140, 139, 138, 137, 136,
  135, 134, 133, 132, 131, 130, 128, 127, 123, 122, 121, 120, 118, 117, 116, 115, 114, 113, 112, 111, 110,
  109, 108, 107, 106, 105, 104, 103, 102, 101, 100, 99, 98, 97, 96, 95, 94, 93, 92, 91, 90, 89, 88, 87, 86,
  85, 84, 83, 82, 80, 79, 78, 77, 76, 75, 74, 73, 72, 71, 70, 69, 67, 66, 65, 63, 62, 61, 60, 59, 58, 57,
  56, 54, 51, 50, 49, 48, 43, 40, 39, 38, 37, 34, 31, 30, 27, 26, 25, 23, 22, 17, 13, 7, 6, 5, 3, 222, 222,
  222, 222, 222, 222, 222, 222, 222, 222, 222, 222, 222, 222, 222, 222, 222, 222, 222, 222, 222, 222, 222,
  222, 222, 222, 222, 222, 222, 222, 222, 222, 222, 222, 222, 222, 222, 222, 222, 222, 222, 222, 222, 222,
  222, 222, 222]

/-! ## The next match -/

/-- The state, the position in the buffer, and the static variables for the last
accepting ones. -/
structure Cursor where
  yy_current_state : ℕ
  yy_cp : ℕ
  yy_last_accepting_state : ℕ
  yy_last_accepting_cpos : ℕ

/-- The loop over `yy_def`, for a number of rounds, and the state behind it. -/
def next : ℕ → ℕ → ℕ → Option ℕ
  | 0, _, _ => none
  | fuel + 1, state, yy_c => do
      let index := (← yy_base[state]?) + yy_c
      if (← yy_chk[index]?) = state then yy_nxt[index]?
      else
        let state ← yy_def[state]?
        if 223 ≤ state then next fuel state (← yy_meta[yy_c]?) else next fuel state yy_c

/-- The state is kept if it accepts, and left. -/
def round (yy_c : ℕ) (cursor : Cursor) : Option Cursor := do
  let accepting ← yy_accept[cursor.yy_current_state]?
  let state ← next 4 cursor.yy_current_state yy_c
  if accepting ≠ 0 then
    return ⟨state, cursor.yy_cp + 1, cursor.yy_current_state, cursor.yy_cp⟩
  else return { cursor with yy_current_state := state, yy_cp := cursor.yy_cp + 1 }

/-- What `yy_match` ends with, and the action 0. -/
def Cursor.backUp (cursor : Cursor) : Cursor :=
  { cursor with yy_current_state := cursor.yy_last_accepting_state, yy_cp := cursor.yy_last_accepting_cpos }

def yy_match (buffer : List UInt8) : ℕ → Cursor → Option Cursor
  | 0, _ => none
  | fuel + 1, cursor => do
      let byte ← buffer[cursor.yy_cp]?
      let cursor ← round (← yy_ec[byte.toNat]?) cursor
      if cursor.yy_current_state = jam then return cursor.backUp
      else yy_match buffer fuel cursor

/-- The action of the state, or of the last accepting one. -/
def yy_find_action : ℕ → Cursor → Option (ℕ × Cursor)
  | 0, _ => none
  | fuel + 1, cursor => do
      let yy_act ← yy_accept[cursor.yy_current_state]?
      if yy_act = 0 then yy_find_action fuel cursor.backUp
      else return (yy_act, cursor)

/-- The rounds over the text up to the end of the buffer. -/
def yy_get_previous_state : List UInt8 → Cursor → Option Cursor
  | [], cursor => return cursor
  | byte :: text, cursor => do
      let yy_c ← if byte = 0 then pure 1 else yy_ec[byte.toNat]?
      yy_get_previous_state text (← round yy_c cursor)

/-- The action for the text at the cursor and the cursor behind this text, or
`none` at the end of the input.  The buffer is `text` with two zeros behind it. -/
def token (text : List UInt8) (cursor : Cursor) : Option (Option ℕ × Cursor) := do
  let yytext := cursor.yy_cp
  let cursor ← yy_match (text ++ [0, 0]) (text.length + 2) { cursor with yy_current_state := 1 }
  let (yy_act, cursor) ← yy_find_action 2 cursor
  if yy_act ≠ YY_END_OF_BUFFER then return (some yy_act, cursor)
  -- a zero within the text, or a buffer that ends too early
  else if cursor.yy_cp ≠ text.length + 1 then none
  -- `EOB_ACT_END_OF_FILE`
  else if cursor.yy_cp - yytext = 1 then return (none, { cursor with yy_cp := yytext })
  else
    -- `EOB_ACT_LAST_MATCH`
    let cursor ← yy_get_previous_state (text.drop yytext)
      { cursor with yy_current_state := 1, yy_cp := yytext }
    let (yy_act, cursor) ← yy_find_action 2 cursor
    if yy_act = YY_END_OF_BUFFER then none else return (some yy_act, cursor)

/-! ## Actions -/

/-- A byte of the text. -/
def char (byte : UInt8) : Char := Char.ofNat byte.toNat

/-- The actions of the rules; the one of 45 is that of no rule. -/
def yyaction : ℕ → Option (Lexer.Action × Lexer.LocationAction)
  | 1 | 11 | 13 | 15 | 17 | 19 | 21 | 23 | 25 | 27 | 29 | 31 | 34 | 37 | 40 => some (.ignore, .keep)
  | 2 => some (.make .keywordGroup, .keep)
  | 3 => some (.make .keywordInference, .keep)
  | 4 => some (.make .keywordEnvironment, .keep)
  | 5 => some (.make .keywordArguments, .keep)
  | 6 => some (.make .keywordGlobals, .keep)
  | 7 => some (.make .keywordWhile, .keep)
  | 8 => some (.make .keywordInrange, .keep)
  | 9 => some (.make .keywordPremises, .keep)
  | 10 => some (.make .keywordProposition, .keep)
  | 12 => some (.makeIdentifier, .keep)
  | 14 => some (.makeIntegerLiteral, .keep)
  | 16 => some (.make .colon, .keep)
  | 18 => some (.make .semicolon, .keep)
  | 20 => some (.make .operatorEq, .keep)
  | 22 => some (.make .operatorNeq, .keep)
  | 24 => some (.make .operatorLt, .keep)
  | 26 => some (.make .operatorLte, .keep)
  | 28 => some (.make .dot, .keep)
  | 30 => some (.make .comma, .keep)
  | 32 => some (.make .lbracket, .keep)
  | 33 => some (.make .rbracket, .keep)
  | 35 => some (.make .lbrace, .keep)
  | 36 => some (.make .rbrace, .keep)
  | 38 => some (.make .lparen, .keep)
  | 39 => some (.make .rparen, .keep)
  | 41 => some (.make .ellipsis, .keep)
  | 42 => some (.ignore, .step)
  | 43 => some (.ignore, .lines)
  | 44 => some (.ignore, .keep)
  | _ => none

/-- What is taken up to the end of the input, for a number of rounds. -/
def actions (text : List UInt8) : ℕ → Cursor → Option (List Lexer.Match × Cursor)
  | 0, _ => none
  | fuel + 1, cursor => do
      match ← token text cursor with
      | (none, cursor) => return ([], cursor)
      | (some yy_act, behind) =>
          let yytext := (text.drop cursor.yy_cp).take (behind.yy_cp - cursor.yy_cp)
          let action ← yyaction yy_act
          let (later, last) ← actions text fuel behind
          return ((action, yytext.map char) :: later, last)

/-- The text of the buffer: `strlen` stops at the first zero.  Its length is made an
`int`, with room for two more bytes: this is for texts of fewer than 2^31 - 2 bytes. -/
def yy_scan_string (str : List UInt8) : List UInt8 := str.takeWhile (· ≠ 0)

end LexYy

end Snowlake
