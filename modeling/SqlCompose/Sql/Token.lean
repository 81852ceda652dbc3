import SqlCompose.Sql.Dialect
import SqlCompose.Value.Basic

/-!
# Statement tokens

A statement is first a list of tokens, which no context has a part in: names are unquoted, and a
bound value stands where its placeholder will be. `Token.render` then writes the text for a
context and collects the bindings.

## Main definitions

* `Token`: keywords, symbols, punctuation, names, numbers and bound values.
* `Token.render`, `Compiled`: the text of a token list, and its bindings in order.
-/

namespace SqlCompose

/-- The reserved words of statements. -/
inductive Keyword where
  | SELECT
  | FROM
  | AS
  | INNER
  | JOIN
  | ON
  | WHERE
  | GROUP
  | BY
  | HAVING
  | ORDER
  | ASC
  | DESC
  | LIMIT
  | OFFSET
  | NOT
  | AND
  | OR
  | LIKE
  | IS
  | NULL
  | IN
  | BETWEEN
  deriving DecidableEq, Repr

/-- The spelling of a reserved word. -/
def Keyword.text : Keyword → String
  | SELECT => "SELECT"
  | FROM => "FROM"
  | AS => "AS"
  | INNER => "INNER"
  | JOIN => "JOIN"
  | ON => "ON"
  | WHERE => "WHERE"
  | GROUP => "GROUP"
  | BY => "BY"
  | HAVING => "HAVING"
  | ORDER => "ORDER"
  | ASC => "ASC"
  | DESC => "DESC"
  | LIMIT => "LIMIT"
  | OFFSET => "OFFSET"
  | NOT => "NOT"
  | AND => "AND"
  | OR => "OR"
  | LIKE => "LIKE"
  | IS => "IS"
  | NULL => "NULL"
  | IN => "IN"
  | BETWEEN => "BETWEEN"

/-- The operator signs. -/
inductive Sign where
  | equal
  | notEqual
  | greater
  | greaterEqual
  | less
  | lessEqual
  | plus
  | minus
  | star
  | slash
  deriving DecidableEq, Repr

/-- The spelling of an operator sign. -/
def Sign.text : Sign → String
  | equal => "="
  | notEqual => "<>"
  | greater => ">"
  | greaterEqual => ">="
  | less => "<"
  | lessEqual => "<="
  | plus => "+"
  | minus => "-"
  | star => "*"
  | slash => "/"

/-- A token of a statement. `nothing` stands in a place that is left empty, and takes up no
character itself. -/
inductive Token where
  | keyword (k : Keyword)
  | sign (s : Sign)
  | comma
  | dot
  | opening
  | closing
  | name (s : String)
  | number (n : Int)
  | bound (v : Value)
  | nothing
  deriving DecidableEq, Repr

/-- The text of a statement and the values of its placeholders, first to last. -/
structure Compiled where
  sql : String
  bindings : List Value
  deriving DecidableEq, Repr

namespace Token

/-- The tokens between parentheses, where asked for. -/
def grouped (group : Bool) (tokens : List Token) : List Token :=
  if group then opening :: tokens ++ [closing] else tokens

/-- Lists of tokens with commas between them, and an empty place when there is none. -/
def commaSeparated : List (List Token) → List Token
  | [] => [nothing]
  | [item] => item
  | item :: items => item ++ comma :: commaSeparated items

/-- The values bound in a token list, first to last. -/
def bindings (tokens : List Token) : List Value :=
  tokens.filterMap fun
    | bound v => some v
    | _ => none

@[simp] theorem bindings_nil : bindings [] = [] := rfl

@[simp] theorem bindings_bound (v : Value) (tokens : List Token) :
    bindings (bound v :: tokens) = v :: bindings tokens := rfl

/-- Whether a space stands between two neighbours: not after an opening parenthesis or a dot, and
not before a closing parenthesis, a comma or a dot. -/
def spaced : Token → Token → Bool
  | opening, _ | dot, _ => false
  | _, closing | _, comma | _, dot => false
  | _, _ => true

/-- The text of one token; `index` is the number of the next binding. -/
def text (ctx : Context) (index : Nat) : Token → String
  | keyword k => k.text
  | sign s => s.text
  | comma => ","
  | dot => "."
  | opening => "("
  | closing => ")"
  | name s => ctx.quoting.apply s
  | number n => toString n
  | bound _ => ctx.dialect.placeholder index
  | nothing => ""

/-- The number of the next binding after a token. -/
def nextIndex (index : Nat) : Token → Nat
  | bound _ => index + 1
  | _ => index

/-- The text of what follows a token, spaces included; `index` is the number of the next
binding. -/
def textAfter (ctx : Context) : Nat → Token → List Token → String
  | _, _, [] => ""
  | index, before, t :: rest =>
    (if spaced before t then " " else "") ++ t.text ctx index ++
      textAfter ctx (t.nextIndex index) t rest

/-- The text of a token list. Placeholders are numbered from one. -/
def textOf (ctx : Context) : List Token → String
  | [] => ""
  | t :: rest => t.text ctx 1 ++ textAfter ctx (t.nextIndex 1) t rest

/-- The statement that a token list stands for in a context. -/
def render (ctx : Context) (tokens : List Token) : Compiled :=
  ⟨textOf ctx tokens, bindings tokens⟩

end Token

namespace Dialect

/-- The tail that keeps at most `limit` rows after the first `offset` ones; an absent bound keeps
all and skips none. Two dialects take an offset only after a limit, so that a lone offset comes
with the limit that stands for no bound: a negative one, or the greatest there is. -/
def windowTokens : Dialect → Option UInt64 → Option UInt64 → List Token
  | _, none, none => []
  | _, some limit, none => [.keyword .LIMIT, .number limit.toNat]
  | _, some limit, some offset =>
    [.keyword .LIMIT, .number limit.toNat, .keyword .OFFSET, .number offset.toNat]
  | sqlite, none, some offset =>
    [.keyword .LIMIT, .number (-1), .keyword .OFFSET, .number offset.toNat]
  | mysql, none, some offset =>
    [.keyword .LIMIT, .number 18446744073709551615, .keyword .OFFSET, .number offset.toNat]
  | postgresql, none, some offset => [.keyword .OFFSET, .number offset.toNat]

/-- The text of the tail, or `none` when there is no bound. -/
def windowText (d : Dialect) (limit offset : Option UInt64) : Option String :=
  match d.windowTokens limit offset with
  | [] => none
  | tokens => some (Token.textOf (.ofDialect d) tokens)

end Dialect

end SqlCompose
