import PcNetwork.Library.Block

namespace PcNetwork.Md5

-- The variables a, b, c and d, and state[4] in the same order. An unsigned long has
-- 32 bits.
structure Words where
  a : UInt32
  b : UInt32
  c : UInt32
  d : UInt32
deriving DecidableEq

inductive Variable where
  | a
  | b
  | c
  | d
deriving DecidableEq

def Words.get (w : Words) : Variable → UInt32
  | .a => w.a
  | .b => w.b
  | .c => w.c
  | .d => w.d

def Words.set (w : Words) (value : UInt32) : Variable → Words
  | .a => {w with a := value}
  | .b => {w with b := value}
  | .c => {w with c := value}
  | .d => {w with d := value}

def F (x y z : UInt32) : UInt32 := (x &&& y) ||| (~~~x &&& z)
def G (x y z : UInt32) : UInt32 := (x &&& z) ||| (y &&& ~~~z)
def H (x y z : UInt32) : UInt32 := x ^^^ y ^^^ z
def I (x y z : UInt32) : UInt32 := y ^^^ (x ||| ~~~z)

def rotateLeft (x n : UInt32) : UInt32 := (x <<< n) ||| (x >>> (32-n))

inductive Macro where
  | FF
  | GG
  | HH
  | II
deriving DecidableEq

def Macro.basic : Macro → UInt32 → UInt32 → UInt32 → UInt32
  | .FF => F
  | .GG => G
  | .HH => H
  | .II => I

-- A line of MD5Transform: the macro, its four variables, the index of x, the number of
-- bits and the constant.
structure Line where
  macroName : Macro
  a : Variable
  b : Variable
  c : Variable
  d : Variable
  k : Nat
  s : UInt32
  ac : UInt32
deriving DecidableEq

-- What the macro does: a += basic(b, c, d) + x + ac, rotation, a += b.
def Line.run (x : List UInt32) (w : Words) (l : Line) : Words :=
  let sum := w.get l.a+(l.macroName.basic (w.get l.b) (w.get l.c) (w.get l.d)+x.getD l.k 0+l.ac)
  let turned := w.set (rotateLeft sum l.s) l.a
  turned.set (turned.get l.a+turned.get l.b) l.a

def S11 : UInt32 := 7
def S12 : UInt32 := 12
def S13 : UInt32 := 17
def S14 : UInt32 := 22
def S21 : UInt32 := 5
def S22 : UInt32 := 9
def S23 : UInt32 := 14
def S24 : UInt32 := 20
def S31 : UInt32 := 4
def S32 : UInt32 := 11
def S33 : UInt32 := 16
def S34 : UInt32 := 23
def S41 : UInt32 := 6
def S42 : UInt32 := 10
def S43 : UInt32 := 15
def S44 : UInt32 := 21

def lines : List Line := [
  ⟨.FF,.a,.b,.c,.d,0,S11,0xd76aa478⟩,⟨.FF,.d,.a,.b,.c,1,S12,0xe8c7b756⟩,⟨.FF,.c,.d,.a,.b,2,S13,0x242070db⟩,⟨.FF,.b,.c,.d,.a,3,S14,0xc1bdceee⟩,
  ⟨.FF,.a,.b,.c,.d,4,S11,0xf57c0faf⟩,⟨.FF,.d,.a,.b,.c,5,S12,0x4787c62a⟩,⟨.FF,.c,.d,.a,.b,6,S13,0xa8304613⟩,⟨.FF,.b,.c,.d,.a,7,S14,0xfd469501⟩,
  ⟨.FF,.a,.b,.c,.d,8,S11,0x698098d8⟩,⟨.FF,.d,.a,.b,.c,9,S12,0x8b44f7af⟩,⟨.FF,.c,.d,.a,.b,10,S13,0xffff5bb1⟩,⟨.FF,.b,.c,.d,.a,11,S14,0x895cd7be⟩,
  ⟨.FF,.a,.b,.c,.d,12,S11,0x6b901122⟩,⟨.FF,.d,.a,.b,.c,13,S12,0xfd987193⟩,⟨.FF,.c,.d,.a,.b,14,S13,0xa679438e⟩,⟨.FF,.b,.c,.d,.a,15,S14,0x49b40821⟩,
  ⟨.GG,.a,.b,.c,.d,1,S21,0xf61e2562⟩,⟨.GG,.d,.a,.b,.c,6,S22,0xc040b340⟩,⟨.GG,.c,.d,.a,.b,11,S23,0x265e5a51⟩,⟨.GG,.b,.c,.d,.a,0,S24,0xe9b6c7aa⟩,
  ⟨.GG,.a,.b,.c,.d,5,S21,0xd62f105d⟩,⟨.GG,.d,.a,.b,.c,10,S22,0x2441453⟩,⟨.GG,.c,.d,.a,.b,15,S23,0xd8a1e681⟩,⟨.GG,.b,.c,.d,.a,4,S24,0xe7d3fbc8⟩,
  ⟨.GG,.a,.b,.c,.d,9,S21,0x21e1cde6⟩,⟨.GG,.d,.a,.b,.c,14,S22,0xc33707d6⟩,⟨.GG,.c,.d,.a,.b,3,S23,0xf4d50d87⟩,⟨.GG,.b,.c,.d,.a,8,S24,0x455a14ed⟩,
  ⟨.GG,.a,.b,.c,.d,13,S21,0xa9e3e905⟩,⟨.GG,.d,.a,.b,.c,2,S22,0xfcefa3f8⟩,⟨.GG,.c,.d,.a,.b,7,S23,0x676f02d9⟩,⟨.GG,.b,.c,.d,.a,12,S24,0x8d2a4c8a⟩,
  ⟨.HH,.a,.b,.c,.d,5,S31,0xfffa3942⟩,⟨.HH,.d,.a,.b,.c,8,S32,0x8771f681⟩,⟨.HH,.c,.d,.a,.b,11,S33,0x6d9d6122⟩,⟨.HH,.b,.c,.d,.a,14,S34,0xfde5380c⟩,
  ⟨.HH,.a,.b,.c,.d,1,S31,0xa4beea44⟩,⟨.HH,.d,.a,.b,.c,4,S32,0x4bdecfa9⟩,⟨.HH,.c,.d,.a,.b,7,S33,0xf6bb4b60⟩,⟨.HH,.b,.c,.d,.a,10,S34,0xbebfbc70⟩,
  ⟨.HH,.a,.b,.c,.d,13,S31,0x289b7ec6⟩,⟨.HH,.d,.a,.b,.c,0,S32,0xeaa127fa⟩,⟨.HH,.c,.d,.a,.b,3,S33,0xd4ef3085⟩,⟨.HH,.b,.c,.d,.a,6,S34,0x4881d05⟩,
  ⟨.HH,.a,.b,.c,.d,9,S31,0xd9d4d039⟩,⟨.HH,.d,.a,.b,.c,12,S32,0xe6db99e5⟩,⟨.HH,.c,.d,.a,.b,15,S33,0x1fa27cf8⟩,⟨.HH,.b,.c,.d,.a,2,S34,0xc4ac5665⟩,
  ⟨.II,.a,.b,.c,.d,0,S41,0xf4292244⟩,⟨.II,.d,.a,.b,.c,7,S42,0x432aff97⟩,⟨.II,.c,.d,.a,.b,14,S43,0xab9423a7⟩,⟨.II,.b,.c,.d,.a,5,S44,0xfc93a039⟩,
  ⟨.II,.a,.b,.c,.d,12,S41,0x655b59c3⟩,⟨.II,.d,.a,.b,.c,3,S42,0x8f0ccc92⟩,⟨.II,.c,.d,.a,.b,10,S43,0xffeff47d⟩,⟨.II,.b,.c,.d,.a,1,S44,0x85845dd1⟩,
  ⟨.II,.a,.b,.c,.d,8,S41,0x6fa87e4f⟩,⟨.II,.d,.a,.b,.c,15,S42,0xfe2ce6e0⟩,⟨.II,.c,.d,.a,.b,6,S43,0xa3014314⟩,⟨.II,.b,.c,.d,.a,13,S44,0x4e0811a1⟩,
  ⟨.II,.a,.b,.c,.d,4,S41,0xf7537e82⟩,⟨.II,.d,.a,.b,.c,11,S42,0xbd3af235⟩,⟨.II,.c,.d,.a,.b,2,S43,0x2ad7d2bb⟩,⟨.II,.b,.c,.d,.a,9,S44,0xeb86d391⟩]

def encodeWord (w : UInt32) : List UInt8 :=
  [(w &&& 0xff).toUInt8,((w >>> 8) &&& 0xff).toUInt8,((w >>> 16) &&& 0xff).toUInt8,((w >>> 24) &&& 0xff).toUInt8]

def encode (words : List UInt32) : List UInt8 := words.flatMap encodeWord

def decode : List UInt8 → List UInt32
  | b0 :: b1 :: b2 :: b3 :: rest =>
    (b0.toUInt32 ||| (b1.toUInt32 <<< 8) ||| (b2.toUInt32 <<< 16) ||| (b3.toUInt32 <<< 24)) :: decode rest
  | _ => []

def md5Transform (state : Words) (block : List UInt8) : Words :=
  let w := lines.foldl (Line.run (decode block)) state
  ⟨state.a+w.a,state.b+w.b,state.c+w.c,state.d+w.d⟩

structure Md5Ctx where
  state : Words
  count0 : UInt32
  count1 : UInt32
  buffer : List UInt8

-- The buffer holds what was there before.
def md5Init (buffer : List UInt8) (para : Words) : Md5Ctx := ⟨para,0,0,buffer⟩

def Md5Ctx.index (context : Md5Ctx) : Nat := ((context.count0 >>> 3) &&& 0x3f).toNat

-- The loop over the whole blocks of the input, in which i + 63 is an unsigned long.
-- With none it reads behind the input.
def transformBlocks (input : List UInt8) (state : Words) (i : Nat) : Option (Words × Nat) :=
  if (i+63) % 2^32 < input.length then
    if i+64 ≤ input.length then transformBlocks input (md5Transform state (Block.slice input i 64)) (i+64) else none
  else some (state,i)
termination_by input.length-i

def md5Update (context : Md5Ctx) (input : List UInt8) : Option Md5Ctx := do
  let inputLen := UInt32.ofNat input.length
  let index := context.index
  let count0 := context.count0+(inputLen <<< 3)
  let carried := if count0 < inputLen <<< 3 then context.count1+1 else context.count1
  let context := {context with count0,count1 := carried+(inputLen >>> 29)}
  let partLen := 64-index
  if partLen ≤ input.length then
    let buffer := Block.patch context.buffer index (Block.slice input 0 partLen)
    let (state,i) ← transformBlocks input (md5Transform context.state buffer) partLen
    return {context with state,buffer := Block.patch buffer 0 (input.drop i)}
  else return {context with buffer := Block.patch context.buffer index input}

def padding : List UInt8 := 0x80 :: List.replicate 63 0

def md5Final (context : Md5Ctx) : Option (List UInt8) := do
  let bits := encode [context.count0,context.count1]
  let index := context.index
  let padLen := if index < 56 then 56-index else 120-index
  let context ← md5Update context (Block.slice padding 0 padLen)
  let context ← md5Update context bits
  return encode [context.state.a,context.state.b,context.state.c,context.state.d]

-- A digit of %02X.
def hexDigit (n : Nat) : UInt8 := if n < 10 then UInt8.ofNat (48+n) else UInt8.ofNat (55+n)

def md5Print (digest : List UInt8) : List UInt8 :=
  digest.flatMap fun byte => [hexDigit (byte.toNat/16),hexDigit (byte.toNat % 16)]

def standard : Words := ⟨0x67452301,0xefcdab89,0x98badcfe,0x10325476⟩

-- MD5. The 32 characters that it copies to the target.
def md5 (source : List UInt8) (paramType : Bool) (param : Words) (buffer : List UInt8) : Option (List UInt8) := do
  let context := md5Init buffer (if paramType then param else standard)
  let context ← md5Update context source
  let digest ← md5Final context
  return md5Print digest

end PcNetwork.Md5
