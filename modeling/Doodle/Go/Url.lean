/-
  `net/url` as far as the gateway uses it, by its documentation.

  `NetUrl` is any implementation: `url.Parse`, and what `URL.Query().Encode()` makes of a query.
  Its laws are the two facts used: an encoded query has no `#`, and the text
  `http://host:port/path?query` parses into its parts when each part is plain. The one of Go 1.9
  is `goUrl` in `Parse.lean`.
-/
import Mathlib.Tactic.Common

namespace Doodle.Go

/-- `url.URL`, the parts of a parsed `http` URL. -/
structure Url where
  host : String
  path : String
  rawQuery : String
  deriving DecidableEq, Repr

/-- An IPv4 address as `net.IP.String` prints it. -/
def IsAddr (host : String) : Prop := host ≠ "" ∧ ∀ c ∈ host.toList, c.isDigit = true ∨ c = '.'

/-- A path that needs no escape and ends neither in a query nor in a fragment. -/
structure PlainPath (path : String) : Prop where
  slash : path.toList.head? = some '/'
  plain : ∀ c ∈ path.toList, c ≠ '?' ∧ c ≠ '%' ∧ c ≠ '#' ∧ ' ' < c ∧ c ≠ '\x7f'

/-- `if args != "" { s += "?" + args }` -/
def withArgs (s args : String) : String := if args = "" then s else s ++ "?" ++ args

structure NetUrl where
  parse : String → Option Url
  encodeQuery : String → String
  encodeQuery_plain : ∀ q, '#' ∉ (encodeQuery q).toList
  parse_http : ∀ (host : String) (port : Nat) (path args : String), IsAddr host → port < 65536 →
    PlainPath path → '#' ∉ args.toList →
    parse (withArgs ("http://" ++ host ++ ":" ++ port.repr ++ path) args) =
      some ⟨host ++ ":" ++ port.repr, path, args⟩

end Doodle.Go
