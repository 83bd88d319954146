/-! The closed sets of tags that describe a kernel family, with the word that stands for each. -/
namespace KernelDispatch

/-- Kinds of operation that expose the same runtime configuration. -/
inductive OpFamily where
  | convolution
  | pooling
  | fullyConnected
  | activation
  deriving DecidableEq, Repr

inductive OpKind where
  | conv2d
  | depthwiseConv2d
  | groupConv2d
  | transposeConv2d
  | avePool
  | maxPool
  | sumPool
  | fullyConnected
  | relu
  | leakyRelu
  | prelu
  deriving DecidableEq, Repr

/-- The order of the dimensions of a feature map or of weights in memory. -/
inductive Layout where
  | chw
  | hwc
  | hwcn
  deriving DecidableEq, Repr

inductive DataType where
  | fx16
  | fx8
  | fx8w16d
  | sa8
  | sa8Sa8Sa32
  deriving DecidableEq, Repr

/-- The padding a specialization is restricted to. -/
inductive Padding where
  /-- No restriction. -/
  | any
  | noPad
  /-- The padding that the kernel size implies. -/
  | krnPad
  deriving DecidableEq, Repr

/-- A numeric runtime parameter. -/
inductive Field where
  | strideW
  | strideH
  | kernelW
  | kernelH
  | channels
  deriving DecidableEq, Repr

inductive Side where
  | top
  | bottom
  | left
  | right
  deriving DecidableEq, Repr

/-- What one level of a dispatch hierarchy tests. -/
inductive Param where
  | field (f : Field)
  | padding
  deriving DecidableEq, Repr

/-- The shape of the code that picks a variant. -/
inductive Style where
  /-- Nested conditional blocks, one level for each parameter of the hierarchy. -/
  | tree
  /-- One chain over the full conditions of the variants. -/
  | flat
  deriving DecidableEq, Repr

namespace OpKind

def all : List OpKind :=
  [.conv2d, .depthwiseConv2d, .groupConv2d, .transposeConv2d, .avePool, .maxPool, .sumPool,
    .fullyConnected, .relu, .leakyRelu, .prelu]

def word : OpKind → String
  | .conv2d => "conv2d"
  | .depthwiseConv2d => "depthwise_conv2d"
  | .groupConv2d => "group_conv2d"
  | .transposeConv2d => "transpose_conv2d"
  | .avePool => "avepool"
  | .maxPool => "maxpool"
  | .sumPool => "sumpool"
  | .fullyConnected => "fully_connected"
  | .relu => "relu"
  | .leakyRelu => "leaky_relu"
  | .prelu => "prelu"

def family : OpKind → OpFamily
  | .conv2d | .depthwiseConv2d | .groupConv2d | .transposeConv2d => .convolution
  | .avePool | .maxPool | .sumPool => .pooling
  | .fullyConnected => .fullyConnected
  | .relu | .leakyRelu | .prelu => .activation

end OpKind

namespace Layout

def all : List Layout := [.chw, .hwc, .hwcn]

def word : Layout → String
  | .chw => "chw"
  | .hwc => "hwc"
  | .hwcn => "hwcn"

/-- How the names of shape index constants end for this layout. -/
def dimSuffix : Layout → String
  | .chw => "CHW"
  | .hwc | .hwcn => "HWC"

end Layout

/-- The C types and constants that a kernel body uses for one data type. -/
structure TypeAliases where
  data : String
  weights : String
  bias : String
  element : String
  params : String
  deriving DecidableEq, Repr

namespace DataType

def all : List DataType := [.fx16, .fx8, .fx8w16d, .sa8, .sa8Sa8Sa32]

def word : DataType → String
  | .fx16 => "fx16"
  | .fx8 => "fx8"
  | .fx8w16d => "fx8w16d"
  | .sa8 => "sa8"
  | .sa8Sa8Sa32 => "sa8_sa8_sa32"

def aliases : DataType → TypeAliases
  | .fx16 => ⟨"int16_t", "int16_t", "int16_t", "MLI_EL_FX_16", "fx.frac_bits"⟩
  | .fx8 => ⟨"int8_t", "int8_t", "int8_t", "MLI_EL_FX_8", "fx.frac_bits"⟩
  | .fx8w16d => ⟨"int16_t", "int8_t", "int8_t", "MLI_EL_FX_16", "fx.frac_bits"⟩
  | .sa8 => ⟨"int8_t", "int8_t", "int8_t", "MLI_EL_ASYM_I8", "asym"⟩
  | .sa8Sa8Sa32 => ⟨"int8_t", "int8_t", "int32_t", "MLI_EL_ASYM_I8", "asym"⟩

end DataType

namespace Padding

def all : List Padding := [.any, .noPad, .krnPad]

/-- The unrestricted padding has no word, so that names do not show it. -/
def word : Padding → String
  | .any => ""
  | .noPad => "nopad"
  | .krnPad => "krnpad"

end Padding

namespace Field

def all : List Field := [.strideW, .strideH, .kernelW, .kernelH, .channels]

def word : Field → String
  | .strideW => "stride_w"
  | .strideH => "stride_h"
  | .kernelW => "kernel_w"
  | .kernelH => "kernel_h"
  | .channels => "channels"

end Field

namespace Side

def all : List Side := [.top, .bottom, .left, .right]

/-- The wrapper variable that holds the padding of this side. -/
def word : Side → String
  | .top => "padding_top"
  | .bottom => "padding_bot"
  | .left => "padding_left"
  | .right => "padding_right"

end Side

namespace Param

def all : List Param := Field.all.map .field ++ [.padding]

def word : Param → String
  | .field f => f.word
  | .padding => "padding"

/-- The wrapper variables that a level testing this parameter reads. -/
def variableNames : Param → List String
  | .field f => [f.word]
  | .padding => Side.all.map Side.word

end Param

namespace Style

def all : List Style := [.tree, .flat]

def word : Style → String
  | .tree => "tree"
  | .flat => "flat"

end Style

end KernelDispatch
