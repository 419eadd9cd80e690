import ClassMachine.Assembler.Layout
import ClassMachine.Files.Tree
import ClassMachine.Main
import ClassMachine.Proofs.ClassFile.Grammar
import ClassMachine.Proofs.Machine.Pausing
import ClassMachine.Proofs.Machine.Soundness
import ClassMachine.Proofs.ClassFile.Truncation
import ClassMachine.Proofs.Assembler.Agreement
import ClassMachine.Proofs.Library.Natives
import ClassMachine.Proofs.Library.Printing
import ClassMachine.Proofs.Machine.Output
import ClassMachine.Proofs.Library.Refusal
import ClassMachine.Proofs.Machine.FailingSink
import ClassMachine.Proofs.Machine.Boundaries
import ClassMachine.Proofs.Machine.Disassembly
import ClassMachine.Proofs.Programs.Counting
import ClassMachine.Proofs.Programs.Printing
import ClassMachine.Proofs.Snapshot.Recovery
import ClassMachine.Proofs.ClassFile.Classification
import ClassMachine.Proofs.Machine.Frames
import ClassMachine.Proofs.Library.Heap
import ClassMachine.Proofs.Machine.Heap
import ClassMachine.Proofs.ClassFile.Indexing
import ClassMachine.Proofs.Library.Indexing
import ClassMachine.Proofs.Machine.Operands
import ClassMachine.Proofs.Machine.Indexing
import ClassMachine.Proofs.Library.Failure
import ClassMachine.Proofs.Machine.Phases
import ClassMachine.Proofs.Machine.Failure
import ClassMachine.Proofs.Machine.Location
import ClassMachine.Proofs.Machine.Relocation
import ClassMachine.Proofs.Programs.Expressions
import ClassMachine.Proofs.Machine.Termination
import ClassMachine.Proofs.Machine.Arguments
import ClassMachine.Proofs.Library.Descriptors
import ClassMachine.Proofs.Library.Delivery
import ClassMachine.Proofs.Text
import ClassMachine.Proofs.Library.Builders
import ClassMachine.Proofs.Library.Tables
import ClassMachine.Proofs.Library.Keys
import ClassMachine.Proofs.ClassFile.Diagnostics
import ClassMachine.Proofs.ClassFile.Resolution
import ClassMachine.Proofs.Assembler.Interning
import ClassMachine.Proofs.Cursor
import ClassMachine.Proofs.ClassFile.Nesting
import ClassMachine.Proofs.ClassPath
