import MonthlyJournal.Entry.Basic

/-!
# A table of spellings

Spellings of some letters and signs outside ASCII, for the program to hand to the
library, which holds for any others as well. A character that is not in the table is
taken for a dash, whatever a fuller table would spell it like.

A row gives the first code point of a run of characters and one spelling for
each of them.
-/

set_option autoImplicit false

namespace MonthlyJournal.Slug

def latinRows : List (Nat × List String) := [
  (0x85, [""]),
  (0xA0, [
    "-", "-", "c-", "ps", "-", "y-", "-", "ss", "-", "-c-", "a", "-", "-", "", "-r-", "-",
    "deg", "-", "2", "3", "-", "u", "p", "-", "-", "1", "o", "-", "1-4", "1-2", "3-4", "-",
    "a", "a", "a", "a", "a", "a", "ae", "c", "e", "e", "e", "e", "i", "i", "i", "i", "d", "n",
    "o", "o", "o", "o", "o", "x", "o", "u", "u", "u", "u", "y", "th", "ss", "a", "a", "a", "a",
    "a", "a", "ae", "c", "e", "e", "e", "e", "i", "i", "i", "i", "d", "n", "o", "o", "o", "o",
    "o", "-", "o", "u", "u", "u", "u", "y", "th", "y", "a", "a", "a", "a", "a", "a", "c", "c",
    "c", "c", "c", "c", "c", "c", "d", "d", "d", "d", "e", "e", "e", "e", "e", "e", "e", "e",
    "e", "e", "g", "g", "g", "g", "g", "g", "g", "g", "h", "h", "h", "h", "i", "i", "i", "i",
    "i", "i", "i", "i", "i", "i", "ij", "ij", "j", "j", "k", "k", "k", "l", "l", "l", "l", "l",
    "l", "l", "l", "l", "l", "n", "n", "n", "n", "n", "n", "-n", "ng", "ng", "o", "o", "o",
    "o", "o", "o", "oe", "oe", "r", "r", "r", "r", "r", "r", "s", "s", "s", "s", "s", "s", "s",
    "s", "t", "t", "t", "t", "t", "t", "u", "u", "u", "u", "u", "u", "u", "u", "u", "u", "u",
    "u", "w", "w", "y", "y", "y", "z", "z", "z", "z", "z", "z", "s"]),
  (0x1C5, ["dz", "dz", "lj"]),
  (0x301, [""])]

def greekRows : List (Nat × List String) := [
  (0x391, [
    "a", "b", "g", "d", "e", "z", "e", "th", "i", "k", "l", "m", "n", "ks", "o", "p", "r"]),
  (0x3A3, [
    "s", "t", "u", "ph", "kh", "ps", "o", "i", "u", "a", "e", "e", "i", "u", "a", "b", "g",
    "d", "e", "z", "e", "th", "i", "k", "l", "m", "n", "x", "o", "p", "r", "s", "s", "t", "u",
    "ph", "kh", "ps", "o", "i", "u", "o", "u", "o", "-"])]

def cyrillicRows : List (Nat × List String) := [
  (0x400, [
    "ie", "io", "dj", "gj", "e", "dz", "i", "yi", "j", "lj", "nj", "tsh", "kj", "i", "u",
    "dzh", "a", "b", "v", "g", "d", "e", "zh", "z", "i", "i", "k", "l", "m", "n", "o", "p",
    "r", "s", "t", "u", "f", "kh", "ts", "ch", "sh", "shch", "-", "y", "-", "e", "iu", "ia",
    "a", "b", "v", "g", "d", "e", "zh", "z", "i", "i", "k", "l", "m", "n", "o", "p", "r", "s",
    "t", "u", "f", "kh", "ts", "ch", "sh", "shch", "-", "y", "-", "e", "iu", "ia", "ie", "io",
    "dj", "gj", "ie", "dz", "i", "yi", "j", "lj", "nj", "tsh", "kj", "i", "u", "dzh"]),
  (0x490, ["g-", "g-"])]

def otherAlphabetRows : List (Nat × List String) := [
  (0x5D5, ["v"]),
  (0x5DC, ["l", "m"]),
  (0x5E9, ["sh"]),
  (0x627, ["", "b"]),
  (0x62D, ["h"]),
  (0x631, ["r"]),
  (0x645, ["m"]),
  (0x661, ["1", "2", "3"]),
  (0x924, ["t"]),
  (0x928, ["n"]),
  (0x92E, ["m"]),
  (0x938, ["s"]),
  (0x947, ["e"]),
  (0x94D, [""]),
  (0xE17, ["th"]),
  (0xE22, ["y"]),
  (0xE44, ["ai"])]

def signRows : List (Nat × List String) := [
  (0x1680, ["-"]),
  (0x180E, ["-"]),
  (0x1E9E, ["ss"]),
  (0x1EC7, ["e"]),
  (0x2003, ["-"]),
  (0x2007, ["-"]),
  (0x200B, ["-"]),
  (0x200D, [""]),
  (0x2010, ["-"]),
  (0x2013, ["-", "-"]),
  (0x2018, ["-", "-"]),
  (0x201C, ["-", "-"]),
  (0x2026, ["-"]),
  (0x2028, ["-", "-"]),
  (0x202F, ["-"]),
  (0x205F, ["-"]),
  (0x20AC, ["eur"]),
  (0x2122, ["tm"]),
  (0x2167, ["viii"]),
  (0x2192, ["-"]),
  (0x2212, ["-"]),
  (0x2460, ["1", "2"]),
  (0x2603, ["snowman-"])]

def eastAsianRows : List (Nat × List String) := [
  (0x3000, ["-"]),
  (0x3002, ["-"]),
  (0x304C, ["ga"]),
  (0x3059, ["su"]),
  (0x3067, ["de"]),
  (0x306A, ["na"]),
  (0x306E, ["no"]),
  (0x3072, ["hi"]),
  (0x3089, ["ra"]),
  (0x30BF, ["ta"]),
  (0x30EF, ["wa"]),
  (0x30FC, [""]),
  (0x4EAC, ["jing-"]),
  (0x5317, ["bei-"]),
  (0x65E5, ["ri-"]),
  (0x672C, ["ben-"]),
  (0x6771, ["dong-"]),
  (0x8A18, ["ji-"]),
  (0x8A9E, ["yu-"]),
  (0xAD6D, ["gug"]),
  (0xC5B4, ["eo"]),
  (0xD55C, ["han"]),
  (0xE000, ["-"]),
  (0xFB01, ["fi", "fl"]),
  (0xFEFF, [""]),
  (0xFF03, ["-"]),
  (0xFF11, ["1"]),
  (0xFF41, ["a", "b", "c"]),
  (0xFFEE, ["o"])]

def supplementaryRows : List (Nat × List String) := [
  (0x10348, ["hw"]),
  (0x1D4B3, ["x"]),
  (0x1D4CE, ["y"]),
  (0x1F1E7, ["b"]),
  (0x1F1E9, ["d", "e", "f", "g"]),
  (0x1F1EE, ["i"]),
  (0x1F1F7, ["r"]),
  (0x1F1F9, ["t"]),
  (0x1F389, ["tada-"]),
  (0x1F44D, ["-1-"]),
  (0x1F467, ["girl-"]),
  (0x1F469, ["woman-"]),
  (0x1F600, ["grinning-"]),
  (0xF0000, ["-"])]

def rows : List (Nat × List String) :=
  latinRows ++ greekRows ++ cyrillicRows ++ otherAlphabetRows ++ signRows ++
    eastAsianRows ++ supplementaryRows

def spelling? (code : Nat) : List (Nat × List String) → Option String
  | [] => none
  | row :: rest =>
    if row.1 ≤ code ∧ code < row.1 + row.2.length then row.2[code - row.1]?
    else spelling? code rest

def tabled : Spelling := fun c => ((spelling? c.toNat rows).getD "-").toList

end MonthlyJournal.Slug
