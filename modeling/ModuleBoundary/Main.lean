/-
The program: reads the working directory, answers, prints.

Of the file system only what is below the working directory is read, and put where it lies.
-/
import ModuleBoundary.CommandLine.Answer

namespace ModuleBoundary

/-- Adds an entry of a directory, and everything below it, to a tree.  What cannot be
read is left out. -/
partial def Tree.addEntry (l : Location) (t : Tree) (e : IO.FS.DirEntry) : IO Tree := do
  let here := l ++ [Utf8.encode e.fileName.toList]
  if ← e.path.isDir then
    let entries ← try e.path.readDir catch _ => pure #[]
    entries.foldlM (Tree.addEntry here) ((t.makeDirs? here).getD t)
  else
    try
      let bytes ← IO.FS.readBinFile e.path
      return (t.write? here bytes.toList).getD t
    catch _ => return t

def Tree.ofWorkingDirectory : IO Tree := do
  let dir ← IO.currentDir
  let here := (Path.ofText dir.toString.toList).segments.filter fun s => !Path.isSilent s
  let around := (Tree.empty.makeDirs? here).getD Tree.empty
  (← dir.readDir).foldlM (Tree.addEntry here) (around.seenFrom here)

end ModuleBoundary

open ModuleBoundary

def main (arguments : List String) : IO UInt32 := do
  let environment ← IO.getEnv "CLEAN_PLUS_VERBOSE"
  let tree ← Tree.ofWorkingDirectory
  let answer := Answer.ofArguments tree (arguments.map String.toList) (environment.map String.toList)
  IO.print (String.ofList answer.output)
  answer.diagnostics.forM fun line => IO.eprintln (String.ofList line)
  return UInt32.ofNat answer.status.code
