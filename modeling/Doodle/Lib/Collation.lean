/-
  The comparison of texts in a database. Keys and where clauses compare weights: texts with one
  weight are one text to them, whatever their bytes. Nothing is asked of the weights, so a result
  over `Collating` holds for every collation.
-/
namespace Doodle.Lib

/-- A collation, by the weight it gives a text. -/
class Collating where
  weight : String → String

export Collating (weight)

/-- `utf8_general_ci` on ASCII: the case of letters and blanks at the end do not count. -/
@[reducible] def asciiCi : Collating where
  weight s := String.ofList ((s.toList.map Char.toUpper).reverse.dropWhile (· = ' '))

end Doodle.Lib
