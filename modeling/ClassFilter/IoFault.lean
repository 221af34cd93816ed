/-!
# `ClassFilter.IoFault`: files that give or take no bytes

The library itself opens no file. Its callers do, and tell it what went wrong.
-/

set_option autoImplicit false

namespace ClassFilter

/-- Why bytes could not be read or written, or not be read as text. The file or its directory does
not exist, the bytes of a text file are no UTF-8, or a payload is longer than its header can
announce. -/
inductive IoFault where
  | notFound
  | notUtf8
  | payloadTooLarge
deriving DecidableEq, Repr

/-- The fault in words, as the operating system or the reader of texts gives it. -/
def IoFault.message : IoFault → String
  | .notFound => "No such file or directory (os error 2)"
  | .notUtf8 => "stream did not contain valid UTF-8"
  | .payloadTooLarge => "filter payload exceeds 4 GiB"

end ClassFilter
