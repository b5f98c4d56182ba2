import ClassWeaver.ClassFile.Code
import ClassWeaver.Code.Frame

namespace ClassWeaver

structure Body where
  code : Code
  frames : List Frame
  deriving DecidableEq, Repr

end ClassWeaver
