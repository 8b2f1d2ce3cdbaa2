import TypedIsl.Language.Basic

/-! # The beginning student language -/

namespace TypedIsl

/-- The primitives of the beginning student language. They are listed in
the order of the bytes of their names. -/
def Language.beginningStudent : Language := ⟨
  [("*", .function [.many .number] .number),
   ("+", .function [.many .number] .number),
   ("-", .function [.many .number] .number),
   ("/", .function [.many .number] .number),
   ("<", .function [.fixed .number, .many .number] .boolean),
   ("<=", .function [.fixed .number, .many .number] .boolean),
   ("=", .function [.fixed .number, .many .number] .boolean),
   (">", .function [.fixed .number, .many .number] .boolean),
   (">=", .function [.fixed .number, .many .number] .boolean),
   ("abs", .function [.fixed .number] .number),
   ("acos", .function [.fixed .number] .number),
   ("add1", .function [.fixed .number] .number),
   ("and", .function [.many .boolean] .boolean),
   ("angle", .function [.fixed .number] .number),
   ("append", .function [.fixed (.list .any), .many (.list .any)] (.list .any)),
   ("asin", .function [.fixed .number] .number),
   ("atan", .function [.fixed .number] .number),
   ("boolean->string", .function [.fixed .boolean] .string),
   ("boolean=?", .function [.fixed .boolean, .fixed .boolean] .boolean),
   ("boolean?", .function [.fixed .any] .boolean),
   ("ceiling", .function [.fixed .number] .number),
   ("complex?", .function [.fixed .any] .boolean),
   ("conjugate", .function [.fixed .number] .number),
   ("cons", .function [.fixed .any, .fixed (.list .any)] (.list .any)),
   ("cons?", .function [.fixed .any] .boolean),
   ("cos", .function [.fixed .number] .number),
   ("cosh", .function [.fixed .number] .number),
   ("current-seconds", .function [] .number),
   ("denominator", .function [.fixed .number] .number),
   ("e", .number),
   ("empty", .list .flexible),
   ("empty?", .function [.fixed (.list .any)] .boolean),
   ("even?", .function [.fixed .number] .boolean),
   ("exact->inexact", .function [.fixed .number] .number),
   ("exact?", .function [.fixed .number] .boolean),
   ("exp", .function [.fixed .number] .number),
   ("explode", .function [.fixed .string] (.list .string)),
   ("expt", .function [.fixed .number, .fixed .number] .number),
   ("first", .function [.fixed (.list .any)] .any),
   ("floor", .function [.fixed .number] .number),
   ("gcd", .function [.fixed .number, .many .number] .number),
   ("imag-part", .function [.fixed .number] .number),
   ("implode", .function [.fixed (.list .string)] .string),
   ("inexact->exact", .function [.fixed .number] .number),
   ("inexact?", .function [.fixed .number] .boolean),
   ("int->string", .function [.fixed .number] .string),
   ("integer->char", .function [.fixed .number] .string),
   ("integer-sqrt", .function [.fixed .number] .number),
   ("integer?", .function [.fixed .any] .boolean),
   ("lcm", .function [.fixed .number, .many .number] .number),
   ("length", .function [.fixed (.list .any)] .number),
   ("list", .function [.many .any] (.list .any)),
   ("list*", .function [.many .any] (.list .any)),
   ("list-ref", .function [.fixed (.list .any), .fixed .number] .any),
   ("list?", .function [.fixed .any] .boolean),
   ("log", .function [.fixed .number, .fixed .number] .number),
   ("magnitude", .function [.fixed .number] .number),
   ("make-list", .function [.fixed .number, .fixed .any] (.list .any)),
   ("make-polar", .function [.fixed .number, .fixed .number] .number),
   ("make-rectangular", .function [.fixed .number, .fixed .number] .number),
   ("max", .function [.fixed .number, .many .number] .number),
   ("member", .function [.fixed .any, .fixed (.list .any)] .boolean),
   ("member?", .function [.fixed .any, .fixed (.list .any)] .boolean),
   ("min", .function [.fixed .number, .many .number] .number),
   ("modulo", .function [.fixed .number, .fixed .number] .number),
   ("negative?", .function [.fixed .number] .boolean),
   ("not", .function [.fixed .boolean] .boolean),
   ("null", .list .any),
   ("null?", .function [.fixed .any] .boolean),
   ("number->string", .function [.fixed .number] .string),
   ("number->string-digits", .function [.fixed .number, .fixed .number] .string),
   ("number?", .function [.fixed .any] .boolean),
   ("numerator", .function [.fixed .number] .number),
   ("odd?", .function [.fixed .number] .boolean),
   ("or", .function [.many .boolean] .boolean),
   ("pi", .number),
   ("positive?", .function [.fixed .number] .boolean),
   ("quotient", .function [.fixed .number, .fixed .number] .number),
   ("random", .function [.fixed .number] .number),
   ("range", .function [.fixed .number, .fixed .number, .fixed .number] (.list .number)),
   ("rational?", .function [.fixed .any] .boolean),
   ("real-part", .function [.fixed .number] .number),
   ("real?", .function [.fixed .any] .boolean),
   ("remainder", .function [.fixed .number, .fixed .number] .number),
   ("remove", .function [.fixed .any, .fixed (.list .any)] (.list .any)),
   ("remove-all", .function [.fixed .any, .fixed (.list .any)] (.list .any)),
   ("replicate", .function [.fixed .number, .fixed .string] .string),
   ("rest", .function [.fixed (.list .any)] (.list .any)),
   ("reverse", .function [.fixed (.list .any)] (.list .any)),
   ("round", .function [.fixed .number] .number),
   ("sgn", .function [.fixed .number] .number),
   ("sin", .function [.fixed .number] .number),
   ("sinh", .function [.fixed .number] .number),
   ("sqr", .function [.fixed .number] .number),
   ("sqrt", .function [.fixed .number] .number),
   ("string->int", .function [.fixed .string] .number),
   ("string->number", .function [.fixed .string] .number),
   ("string->symbol", .function [.fixed .string] .symbol),
   ("string-alphabetic?", .function [.fixed .string] .boolean),
   ("string-append", .function [.many .string] .string),
   ("string-ci<=?", .function [.fixed .string, .fixed .string] .boolean),
   ("string-ci<?", .function [.fixed .string, .fixed .string] .boolean),
   ("string-ci=?", .function [.fixed .string, .fixed .string] .boolean),
   ("string-ci>=?", .function [.fixed .string, .fixed .string] .boolean),
   ("string-ci>?", .function [.fixed .string, .fixed .string] .boolean),
   ("string-contains-ci?", .function [.fixed .string, .fixed .string] .boolean),
   ("string-contains?", .function [.fixed .string, .fixed .string] .boolean),
   ("string-copy", .function [.fixed .string] .string),
   ("string-downcase", .function [.fixed .string] .string),
   ("string-ith", .function [.fixed .string, .fixed .number] .string),
   ("string-length", .function [.fixed .string] .number),
   ("string-lower-case?", .function [.fixed .string] .boolean),
   ("string-numeric?", .function [.fixed .string] .boolean),
   ("string-ref", .function [.fixed .string, .fixed .number] .string),
   ("string-upcase", .function [.fixed .string] .string),
   ("string-upper-case?", .function [.fixed .string] .boolean),
   ("string-whitespace?", .function [.fixed .string] .boolean),
   ("string<=?", .function [.fixed .string, .fixed .string] .boolean),
   ("string<?", .function [.fixed .string, .fixed .string] .boolean),
   ("string=?", .function [.fixed .string, .fixed .string] .boolean),
   ("string>=?", .function [.fixed .string, .fixed .string] .boolean),
   ("string>?", .function [.fixed .string, .fixed .string] .boolean),
   ("string?", .function [.fixed .any] .boolean),
   ("struct?", .function [.fixed .any] .boolean),
   ("sub1", .function [.fixed .number] .number),
   ("substring", .function [.fixed .string, .fixed .number, .fixed .number] .string),
   ("symbol->string", .function [.fixed .symbol] .string),
   ("symbol=?", .function [.fixed .symbol, .fixed .symbol] .boolean),
   ("symbol?", .function [.fixed .any] .boolean),
   ("tan", .function [.fixed .number] .number),
   ("zero?", .function [.fixed .number] .boolean)]⟩

end TypedIsl
