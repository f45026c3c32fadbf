import ConceptLaws.Json.Basic

/-! The hash function SHA-256. -/

namespace ConceptLaws.Sha256

/-- The eight words of the running hash. -/
structure Words where
  a : UInt32
  b : UInt32
  c : UInt32
  d : UInt32
  e : UInt32
  f : UInt32
  g : UInt32
  h : UInt32
deriving Repr, DecidableEq

/-- The first 32 bits of the fractional parts of the square roots of the first eight primes. -/
def initial : Words :=
  ⟨0x6a09e667, 0xbb67ae85, 0x3c6ef372, 0xa54ff53a, 0x510e527f, 0x9b05688c, 0x1f83d9ab,
    0x5be0cd19⟩

/-- The first 32 bits of the fractional parts of the cube roots of the first sixty-four primes. -/
def roundConstants : List UInt32 :=
  [0x428a2f98, 0x71374491, 0xb5c0fbcf, 0xe9b5dba5, 0x3956c25b, 0x59f111f1, 0x923f82a4, 0xab1c5ed5,
    0xd807aa98, 0x12835b01, 0x243185be, 0x550c7dc3, 0x72be5d74, 0x80deb1fe, 0x9bdc06a7, 0xc19bf174,
    0xe49b69c1, 0xefbe4786, 0x0fc19dc6, 0x240ca1cc, 0x2de92c6f, 0x4a7484aa, 0x5cb0a9dc, 0x76f988da,
    0x983e5152, 0xa831c66d, 0xb00327c8, 0xbf597fc7, 0xc6e00bf3, 0xd5a79147, 0x06ca6351, 0x14292967,
    0x27b70a85, 0x2e1b2138, 0x4d2c6dfc, 0x53380d13, 0x650a7354, 0x766a0abb, 0x81c2c92e, 0x92722c85,
    0xa2bfe8a1, 0xa81a664b, 0xc24b8b70, 0xc76c51a3, 0xd192e819, 0xd6990624, 0xf40e3585, 0x106aa070,
    0x19a4c116, 0x1e376c08, 0x2748774c, 0x34b0bcb5, 0x391c0cb3, 0x4ed8aa4a, 0x5b9cca4f, 0x682e6ff3,
    0x748f82ee, 0x78a5636f, 0x84c87814, 0x8cc70208, 0x90befffa, 0xa4506ceb, 0xbef9a3f7, 0xc67178f2]

def rotate (word : UInt32) (places : UInt32) : UInt32 :=
  (word >>> places) ||| (word <<< (32 - places))

def choose (x y z : UInt32) : UInt32 := (x &&& y) ^^^ ((~~~x) &&& z)
def majority (x y z : UInt32) : UInt32 := (x &&& y) ^^^ (x &&& z) ^^^ (y &&& z)
def spread0 (x : UInt32) : UInt32 := rotate x 2 ^^^ rotate x 13 ^^^ rotate x 22
def spread1 (x : UInt32) : UInt32 := rotate x 6 ^^^ rotate x 11 ^^^ rotate x 25
def mix0 (x : UInt32) : UInt32 := rotate x 7 ^^^ rotate x 18 ^^^ (x >>> 3)
def mix1 (x : UInt32) : UInt32 := rotate x 17 ^^^ rotate x 19 ^^^ (x >>> 10)

/-- A word of the schedule, by its place. -/
def word (schedule : Array UInt32) (place : Nat) : UInt32 := schedule.getD place 0

/-- The schedule of a block: its sixteen words and forty-eight more made from them. -/
def schedule (block : Array UInt32) : Array UInt32 :=
  (List.range 48).foldl (fun words step =>
    words.push (mix1 (word words (step + 14)) + word words (step + 9) +
      mix0 (word words (step + 1)) + word words step)) block

def round (words : Words) (scheduled constant : UInt32) : Words :=
  let first := words.h + spread1 words.e + choose words.e words.f words.g + constant + scheduled
  let second := spread0 words.a + majority words.a words.b words.c
  ⟨first + second, words.a, words.b, words.c, words.d + first, words.e, words.f, words.g⟩

def compress (words : Words) (block : Array UInt32) : Words :=
  let last := ((schedule block).toList.zip roundConstants).foldl
    (fun words (scheduled, constant) => round words scheduled constant) words
  ⟨words.a + last.a, words.b + last.b, words.c + last.c, words.d + last.d, words.e + last.e,
    words.f + last.f, words.g + last.g, words.h + last.h⟩

/-- The bytes of a number, most significant first. -/
def bigEndian (length value : Nat) : List UInt8 :=
  (List.range length).reverse.map fun place => (value >>> (8 * place)).toUInt8

/-- The message, a one bit, zeros, and the length in bits, in whole blocks. -/
def pad (message : List UInt8) : List UInt8 :=
  let zeros := (119 - message.length % 64) % 64
  message ++ 0x80 :: List.replicate zeros 0 ++ bigEndian 8 (8 * message.length)

def wordsOfBytes : List UInt8 → List UInt32
  | first :: second :: third :: fourth :: rest =>
    ((first.toUInt32 <<< 24) ||| (second.toUInt32 <<< 16) ||| (third.toUInt32 <<< 8) |||
      fourth.toUInt32) :: wordsOfBytes rest
  | _ => []

/-- Takes the blocks off the front of a word list, at most `count` of them. -/
def compressAll : Nat → Words → List UInt32 → Words
  | 0, words, _ => words
  | count + 1, words, rest =>
    if rest.isEmpty then words
    else compressAll count (compress words (rest.take 16).toArray) (rest.drop 16)

def Words.toBytes (words : Words) : List UInt8 :=
  [words.a, words.b, words.c, words.d, words.e, words.f, words.g, words.h].flatMap
    fun word => bigEndian 4 word.toNat

def hash (message : List UInt8) : List UInt8 :=
  let padded := wordsOfBytes (pad message)
  (compressAll padded.length initial padded).toBytes

end ConceptLaws.Sha256

/-! Fingerprints of catalogs and relations: a hash of a domain, a length, and the content. -/

namespace ConceptLaws

structure Fingerprint where
  bytes : List UInt8
deriving Repr, DecidableEq, Inhabited

namespace Fingerprint

def textBytes (content : String) : List UInt8 := content.toUTF8.toList

/-- The eight bytes of a length, least significant first. -/
def lengthBytes (length : Nat) : List UInt8 := (Sha256.bigEndian 8 length).reverse

def catalogDomain : List UInt8 := textBytes "LAWGRAPH_CATALOG"
def relationDomain : List UInt8 := textBytes "LAWGRAPH_RELATION"

/-- Domain and length keep contents of different domains apart. -/
def ofContent (domain content : List UInt8) : Fingerprint :=
  ⟨Sha256.hash
    (textBytes "LG:" ++ domain ++ textBytes ":v1" ++ lengthBytes content.length ++ content)⟩

def hex (fingerprint : Fingerprint) : String :=
  String.join (fingerprint.bytes.map fun byte => Json.hexByte byte.toNat)

def isZero (fingerprint : Fingerprint) : Bool := fingerprint.bytes.all (· == 0)

/-- The first four bytes stand for the whole. -/
def display (fingerprint : Fingerprint) : String :=
  "HashValue(" ++ hex ⟨fingerprint.bytes.take 4⟩ ++ "…)"

end Fingerprint

end ConceptLaws
