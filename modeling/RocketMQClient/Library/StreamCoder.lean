import RocketMQClient.Library.ByteString

/-!
# Compression as a stream

A compression library is called with a piece of input and some space for output. A call takes a part
of the input, puts out some bytes, and says how it ended. A `StreamCoder` has the functions of such
a library. `DeflateSession` and `InflateSession` are the states that a caller gets by permitted
calls, with the bytes given and put out so far.

`StreamCoder.Follows` is what the documentation says of the calls at one level of compression: the
output of a compression that has ended is a stream of the bytes given, and a stream is decompressed
to its data, however either was cut; a call that leaves space has taken its whole input; and the end
of a stream is reported when all of it has been put out. Which stream of the data a compression ends
with is left open, since at some levels that depends on how the input was cut.
-/

set_option autoImplicit false
set_option relaxedAutoImplicit false

namespace RocketMQClient.Library

/-- What a call returns. -/
inductive ReturnCode where
  | ok
  | streamEnd
  | needDict
  | streamError
  | dataError
  | memError
  | bufError
  deriving DecidableEq

/-- Whether a call is for the last of the input. -/
inductive Flush where
  | noFlush
  | finish
  deriving DecidableEq

/-- What a call did: the number of bytes taken, the bytes put out and the result. -/
structure Progress where
  used : ℕ
  output : ByteString
  ret : ReturnCode

/-- The functions of the library. An initialisation may fail. -/
structure StreamCoder where
  DeflateState : Type
  InflateState : Type
  deflateInit : ℤ → Option DeflateState
  deflate : DeflateState → ByteString → Flush → ℕ → DeflateState × Progress
  inflateInit : Option InflateState
  inflate : InflateState → ByteString → ℕ → InflateState × Progress

/-- The levels of compression. -/
def IsLevel (level : ℤ) : Prop := -1 ≤ level ∧ level ≤ 9

instance (level : ℤ) : Decidable (IsLevel level) := inferInstanceAs (Decidable (_ ∧ _))

/-- The states of a compression with the bytes given and put out. Behind a call for the last of the
input, the input that it left must be given again. -/
inductive DeflateSession (zlib : StreamCoder) (level : ℤ) :
    zlib.DeflateState → ByteString → ByteString → Option ByteString → Prop
  | init (state : zlib.DeflateState) (hinit : zlib.deflateInit level = some state) :
    DeflateSession zlib level state [] [] none
  | call (state : zlib.DeflateState) (given produced : ByteString) (unread : Option ByteString)
    (input : ByteString) (flush : Flush) (space : ℕ)
    (hsession : DeflateSession zlib level state given produced unread)
    (hpermitted : ∀ rest ∈ unread, flush = .finish ∧ input = rest) (hspace : 0 < space) :
    DeflateSession zlib level (zlib.deflate state input flush space).1
      (given ++ input.take (zlib.deflate state input flush space).2.used)
      (produced ++ (zlib.deflate state input flush space).2.output)
      (if flush = .finish then some (input.drop (zlib.deflate state input flush space).2.used)
      else none)

/-- The states of a decompression with the bytes given and put out. -/
inductive InflateSession (zlib : StreamCoder) :
    zlib.InflateState → ByteString → ByteString → Prop
  | init (state : zlib.InflateState) (hinit : zlib.inflateInit = some state) :
    InflateSession zlib state [] []
  | call (state : zlib.InflateState) (given produced input : ByteString) (space : ℕ)
    (hsession : InflateSession zlib state given produced) (hspace : 0 < space) :
    InflateSession zlib (zlib.inflate state input space).1
      (given ++ input.take (zlib.inflate state input space).2.used)
      (produced ++ (zlib.inflate state input space).2.output)

/-- What a call of `deflate` does, behind the bytes given and put out before. -/
structure DeflateStep (IsStream : ByteString → ByteString → Prop)
    (given produced input : ByteString) (flush : Flush) (space : ℕ) (progress : Progress) :
    Prop where
  used_le : progress.used ≤ input.length
  output_le : progress.output.length ≤ space
  noError : progress.ret ≠ .streamError
  takesAll : progress.output.length < space → progress.used = input.length
  finishes : flush = .finish → progress.output.length < space →
    IsStream (produced ++ progress.output) (given ++ input)
  ended : progress.ret = .streamEnd ↔ flush = .finish ∧ progress.used = input.length ∧
    IsStream (produced ++ progress.output) (given ++ input)

/-- What a call of `inflate` does whose input continues a stream of some data. -/
structure InflateStep (stream data given produced input : ByteString) (space : ℕ)
    (progress : Progress) : Prop where
  used_le : progress.used ≤ input.length
  output_le : progress.output.length ≤ space
  accepted : progress.ret = .ok ∨ progress.ret = .streamEnd ∨ progress.ret = .bufError
  output_begins : produced ++ progress.output <+: data
  takesAll : progress.output.length < space → progress.used = input.length
  finishes : progress.output.length < space → given ++ input = stream →
    produced ++ progress.output = data
  ended : progress.ret = .streamEnd ↔ given ++ input.take progress.used = stream ∧
    produced ++ progress.output = data

/-- At a level, the library compresses data to one of its streams, which have a header at least, and
back. It never puts out twice as many bytes as it was given, a few bytes aside. -/
structure StreamCoder.Follows (zlib : StreamCoder) (level : ℤ)
    (IsStream : ByteString → ByteString → Prop) : Prop where
  header : ∀ data, ¬ IsStream [] data
  deflateInit : IsLevel level → (zlib.deflateInit level).isSome
  deflate : ∀ state given produced unread,
    DeflateSession zlib level state given produced unread → ∀ input flush space,
      (∀ rest ∈ unread, flush = .finish ∧ input = rest) → 0 < space →
        DeflateStep IsStream given produced input flush space
          (zlib.deflate state input flush space).2
  expands : ∀ state given produced unread,
    DeflateSession zlib level state given produced unread →
      produced.length < 2 * max given.length 16
  inflateInit : zlib.inflateInit.isSome
  inflate : ∀ stream data, IsStream stream data → ∀ state given produced,
    InflateSession zlib state given produced → ∀ input space,
      given ++ input <+: stream → 0 < space →
        InflateStep stream data given produced input space (zlib.inflate state input space).2

end RocketMQClient.Library
